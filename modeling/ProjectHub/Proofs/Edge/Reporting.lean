import ProjectHub.Proofs.Edge.Delivery
import ProjectHub.Proofs.Manifest.Likeness

/-!
# Propagation only reports

The records of a manifest are put one after another whatever becomes of each, and the
report counts what was accepted and what was not. What pushes answer and what they leave
in the store is what the registry alone makes of them, so no sink has a part in it.
-/

namespace ProjectHub

namespace Edge

variable {S : Type}

/-- The puts for a manifest, one for each bundle in order. -/
def putsFor (m : Manifest) : List (String × List UInt8) :=
  m.bundles.map fun b => (bundleKey m.project b, recordBytes b)

/-- The state behind a sink after puts in their order, and how each of them ended. -/
def Sink.putAll (sink : Sink S) (st : S) (puts : List (String × List UInt8)) : S × List Outcome :=
  runAll (fun st put => sink.put put.1 put.2 st) st puts

/-- A sink with a list of all puts it was given and how each of them ended. -/
def Sink.watched (sink : Sink S) : Sink (S × List ((String × List UInt8) × Outcome)) where
  name := sink.name
  put := fun key value st =>
    let (next, outcome) := sink.put key value st.1
    ((next, st.2 ++ [((key, value), outcome)]), outcome)

/-- How many puts were accepted and how many were not. -/
def Report.ofOutcomes (outcomes : List Outcome) : Report :=
  ⟨outcomes.countP (· = .accepted), outcomes.countP (· ≠ .accepted)⟩

theorem Report.add_ofOutcomes (outcomes : List Outcome) :
    (ofOutcomes outcomes).propagated + (ofOutcomes outcomes).failed = outcomes.length := by
  have hsplit := List.length_eq_countP_add_countP (fun outcome : Outcome => decide (outcome = .accepted))
    (l := outcomes)
  simpa [ofOutcomes] using hsplit.symm

section Puts

variable {sink : Sink S} {st next : S} {put : String × List UInt8} {outcome : Outcome}

theorem putAll_cons (h : sink.put put.1 put.2 st = (next, outcome))
    (puts : List (String × List UInt8)) :
    sink.putAll st (put :: puts) =
      ((sink.putAll next puts).1, outcome :: (sink.putAll next puts).2) := by
  simp [Sink.putAll, runAll, h]

theorem length_putAll (sink : Sink S) (st : S) (puts : List (String × List UInt8)) :
    (sink.putAll st puts).2.length = puts.length := by
  induction puts generalizing st with
  | nil => rfl
  | cons put puts ih => exact congrArg (· + 1) (ih _)

/-- What is seen of puts at a sink is each of them once, in order. -/
theorem putAll_watched (seen : List ((String × List UInt8) × Outcome))
    (puts : List (String × List UInt8)) :
    sink.watched.putAll (st, seen) puts =
      (((sink.putAll st puts).1, seen ++ puts.zip (sink.putAll st puts).2),
        (sink.putAll st puts).2) := by
  induction puts generalizing st seen with
  | nil => simp [Sink.putAll, runAll]
  | cons put puts ih =>
      rcases hput : sink.put put.1 put.2 st with ⟨next, outcome⟩
      have hseen : sink.watched.put put.1 put.2 (st, seen) =
          ((next, seen ++ [(put, outcome)]), outcome) := by
        simp [Sink.watched, hput]
      rw [putAll_cons hput, putAll_cons hseen, ih, List.zip_cons_cons, List.append_assoc,
        List.singleton_append]

end Puts

/-- All puts are made, however those before them ended, and the report counts them. -/
theorem propagate_eq (p : Propagator S) (m : Manifest) (st : S) :
    p.propagate m st =
      ((p.sink.putAll st (putsFor m)).1, .ofOutcomes (p.sink.putAll st (putsFor m)).2) := by
  unfold Propagator.propagate putsFor
  generalize m.bundles = bundles
  induction bundles generalizing st with
  | nil => rfl
  | cons b bundles ih =>
      rcases hput : p.sink.put (bundleKey m.project b) (recordBytes b) st with ⟨next, outcome⟩
      have hfirst : p.sink.put (bundleKey m.project b, recordBytes b).1
          (bundleKey m.project b, recordBytes b).2 st = (next, outcome) := hput
      rw [List.map_cons, putAll_cons hfirst]
      cases outcome <;>
        simp [Propagator.putBundles, Propagator.putRecord, hput, ih next, Report.ofOutcomes]

end Edge

/-! ## Pushes apart from their identifiers and times -/

/-- Manifests that differ in their identifiers and times only. -/
structure Manifest.Alike (a b : Manifest) : Prop where
  project : a.project = b.project
  bundles : a.bundles = b.bundles
  createdBy : a.createdBy = b.createdBy

namespace Manifest.Store

/-- Stores of one kind that hold, in the same order, what differs in identifiers and times
only. -/
def Alike : Store → Store → Prop
  | memory a, memory b =>
    ∀ project, List.Forall₂ Manifest.Alike (history a project) (history b project)
  | database a, database b => List.Forall₂ (fun row row' => row.project = row'.project ∧
      row.bundles = row'.bundles ∧ row.createdBy = row'.createdBy) a b
  | _, _ => False

theorem Alike.refl : (store : Store) → store.Alike store
  | memory _ => fun _ => List.forall₂_same.mpr fun _ _ => ⟨rfl, rfl, rfl⟩
  | database _ => List.forall₂_same.mpr fun _ _ => ⟨rfl, rfl, rfl⟩

/-- Manifests alike are appended alike where their identifiers are new. -/
theorem Alike.append {a b : Store} (h : a.Alike b) {m m' : Manifest} (hm : m.Alike m')
    (hid : a.hasId m.id = false) (hid' : b.hasId m'.id = false) :
    ∃ next next', a.append m = .ok next ∧ b.append m' = .ok next' ∧ next.Alike next' := by
  cases a <;> cases b
  · rename_i histories histories'
    refine ⟨_, _, rfl, rfl, fun project => ?_⟩
    rw [history_insert, history_insert, hm.project]
    split
    · exact List.rel_append (h _) (.cons hm .nil)
    · exact h project
  · exact h.elim
  · exact h.elim
  · simp only [hasId] at hid hid'
    simp only [Store.append, hid, hid', Bool.false_eq_true, if_false]
    exact ⟨_, _, rfl, rfl, List.rel_append h
      (.cons ⟨hm.project, congrArg Bundle.renderList hm.bundles, hm.createdBy⟩ .nil)⟩

end Manifest.Store

namespace Registry.Push

/-- Pushes that ask for the same. -/
structure Alike (p q : Push) : Prop where
  project : p.project = q.project
  bundles : p.bundles = q.bundles
  createdBy : p.createdBy = q.createdBy

/-- Pushes whose identifiers are new, to the store and among each other. -/
def AreNew (store : Manifest.Store) (pushes : List Push) : Prop :=
  (pushes.map id).Nodup ∧ ∀ p ∈ pushes, store.hasId p.id = false

theorem hasId_run (store : Manifest.Store) (p : Push) {id : String} (h : id ≠ p.id) :
    (p.run store).1.hasId id = store.hasId id := by
  unfold run
  split
  · rename_i hpush
    exact Manifest.Store.hasId_append (append_of_push hpush) h
  · rfl

theorem AreNew.tail {store : Manifest.Store} {p : Push} {pushes : List Push}
    (h : AreNew store (p :: pushes)) : AreNew (p.run store).1 pushes := by
  obtain ⟨hnodup, hnew⟩ := h
  obtain ⟨hp, hnodup⟩ := List.nodup_cons.mp hnodup
  refine ⟨hnodup, fun q hq => ?_⟩
  rw [hasId_run store p fun heq => hp (heq ▸ List.mem_map_of_mem hq)]
  exact hnew q (List.mem_cons_of_mem _ hq)

theorem run_alike {p q : Push} (h : p.Alike q) {a b : Manifest.Store} (hab : a.Alike b)
    (hp : a.hasId p.id = false) (hq : b.hasId q.id = false) :
    Matches Manifest.Alike (p.run a).2 (q.run b).2 ∧ (p.run a).1.Alike (q.run b).1 := by
  have hcheck : checkPush p.project p.bundles = checkPush q.project q.bundles := by
    rw [h.project, h.bundles]
  have hmade : p.manifest.Alike q.manifest := ⟨h.project, h.bundles, h.createdBy⟩
  by_cases hrefused : p.IsRefused
  · cases hp : checkPush p.project p.bundles with
    | ok _ => exact absurd hrefused ((checkPush_eq_ok_iff p).mp hp)
    | error error =>
      have hq := hcheck.symm.trans hp
      simp only [run, push, hp, hq, bind, Except.bind]
      exact ⟨.error error, hab⟩
  · have hrefused' : ¬ q.IsRefused := by
      rwa [← checkPush_eq_ok_iff, ← hcheck, checkPush_eq_ok_iff]
    obtain ⟨next, next', happend, happend', halike⟩ := hab.append hmade hp hq
    rw [run_of_not_isRefused hrefused happend, run_of_not_isRefused hrefused' happend']
    exact ⟨.ok hmade, halike⟩

/-- Pushes that ask for the same are answered alike and leave stores alike. -/
theorem runAll_alike {pushes pushes' : List Push} (h : List.Forall₂ Alike pushes pushes')
    {a b : Manifest.Store} (hab : a.Alike b) (hnew : AreNew a pushes) (hnew' : AreNew b pushes') :
    List.Forall₂ (Matches Manifest.Alike) (runAll a pushes).2 (runAll b pushes').2 ∧
      (runAll a pushes).1.Alike (runAll b pushes').1 := by
  induction h generalizing a b with
  | nil => exact ⟨.nil, hab⟩
  | @cons p q pushes pushes' hpq _ ih =>
      obtain ⟨hanswer, hstore⟩ := run_alike hpq hab (hnew.2 p List.mem_cons_self)
        (hnew'.2 q List.mem_cons_self)
      obtain ⟨hanswers, hstores⟩ := ih hstore hnew.tail hnew'.tail
      exact ⟨.cons hanswer hanswers, hstores⟩

end Registry.Push

/-! ## Pushes to a hub -/

namespace Hub

variable {W W' : Type}

/-- What comes to a hub: a push, or a change of the world and of the way to the edge. -/
inductive Arrival (W : Type) where
  | push (id : String) (now : Instant) (request : Api.PushRequest)
  | elsewhere (world : W) (propagator : Option (Edge.Propagator W))

namespace Arrival

/-- The hub afterwards, and the answer to a push. -/
def run (h : Hub W) : Arrival W → Hub W × Option (Except Error Manifest)
  | push id now request => Prod.map (·) some (h.pushManifest id now request)
  | elsewhere world propagator => ({ h.withWorld world with propagator := propagator }, none)

/-- The push as it reaches the registry. -/
def push? : Arrival W → Option Registry.Push
  | push id now request =>
    some ⟨id, now, request.project, request.bundles, request.createdBy.getD defaultAuthor⟩
  | elsewhere .. => none

/-- The hub after all that comes to it, and the answers to the pushes. -/
def runAll (h : Hub W) (arrivals : List (Arrival W)) : Hub W × List (Except Error Manifest) :=
  Prod.map (·) (List.filterMap id) (ProjectHub.runAll run h arrivals)

/-- The pushes as they reach the registry. -/
def pushes (arrivals : List (Arrival W)) : List Registry.Push :=
  arrivals.filterMap push?

theorem run_of_push? {arrival : Arrival W} {p : Registry.Push} (h : Hub W)
    (hp : arrival.push? = some p) :
    (arrival.run h).1.manifests = (p.run h.manifests).1 ∧
      (arrival.run h).2 = some ((p.run h.manifests).2.mapError .registry) := by
  cases arrival with
  | elsewhere world propagator => cases hp
  | push id now request =>
      cases hp
      simp only [run, pushManifest, Registry.Push.run]
      cases Registry.push h.manifests id now request.project request.bundles
        (request.createdBy.getD defaultAuthor) with
      | error error => exact ⟨rfl, rfl⟩
      | ok pushed =>
          cases h.propagator with
          | none => exact ⟨rfl, rfl⟩
          | some p => exact ⟨rfl, rfl⟩

theorem run_of_push?_eq_none {arrival : Arrival W} (h : Hub W) (hp : arrival.push? = none) :
    (arrival.run h).1.manifests = h.manifests ∧ (arrival.run h).2 = none := by
  cases arrival with
  | push id now request => cases hp
  | elsewhere world propagator => exact ⟨rfl, rfl⟩

/-- What pushes to a hub answer and what they store is what they do to its registry. -/
theorem runAll_eq (h : Hub W) (arrivals : List (Arrival W)) :
    (runAll h arrivals).1.manifests = (Registry.Push.runAll h.manifests (pushes arrivals)).1 ∧
      (runAll h arrivals).2 =
        (Registry.Push.runAll h.manifests (pushes arrivals)).2.map (·.mapError .registry) := by
  induction arrivals generalizing h with
  | nil => exact ⟨rfl, rfl⟩
  | cons arrival arrivals ih =>
      obtain ⟨hstore, hanswers⟩ := ih (arrival.run h).1
      have hfirst : (runAll h (arrival :: arrivals)).2 =
          (arrival.run h).2.toList ++ (runAll (arrival.run h).1 arrivals).2 := by
        cases hanswer : (arrival.run h).2 <;> simp [runAll, ProjectHub.runAll, hanswer]
      cases hp : arrival.push? with
      | none =>
          obtain ⟨hsame, hnone⟩ := run_of_push?_eq_none h hp
          have hrest : pushes (arrival :: arrivals) = pushes arrivals := List.filterMap_cons_none hp
          rw [hsame] at hstore hanswers
          rw [hrest, hfirst, hnone, hanswers]
          exact ⟨hstore, rfl⟩
      | some p =>
          obtain ⟨hnext, hanswer⟩ := run_of_push? h hp
          have hrest : pushes (arrival :: arrivals) = p :: pushes arrivals :=
            List.filterMap_cons_some hp
          rw [hnext] at hstore hanswers
          rw [hrest, hfirst, hanswer, hanswers]
          exact ⟨hstore, rfl⟩

end Arrival

/-- A propagated manifest makes one put for each bundle, in order and with its key and record,
whatever becomes of the puts; the report counts those that were accepted and those that were
not. Pushes to two hubs with stores alike are answered alike, and leave stores alike, whatever
sinks the hubs have, if any, and whatever happens elsewhere; with the same identifiers and times
they are answered and stored the same. -/
theorem propagation_only_reports :
    (∀ {S : Type} (p : Edge.Propagator S) (m : Manifest) (st : S),
      let puts := m.bundles.map fun b => (Edge.bundleKey m.project b, Edge.recordBytes b)
      let ended := (p.sink.putAll st puts).2
      (∀ seen, (⟨p.sink.watched, p.timeoutMillis⟩ : Edge.Propagator _).propagate m (st, seen) =
        (((p.propagate m st).1, seen ++ puts.zip ended), (p.propagate m st).2)) ∧
      ended.length = m.bundles.length ∧
      (p.propagate m st).2.propagated = ended.countP (· = .accepted) ∧
      (p.propagate m st).2.failed = ended.countP (· ≠ .accepted) ∧
      (p.propagate m st).2.propagated + (p.propagate m st).2.failed = m.bundles.length) ∧
    ∀ {W W' : Type} (h : Hub W) (h' : Hub W') (arrivals : List (Arrival W))
      (arrivals' : List (Arrival W')),
      (h.manifests.Alike h'.manifests →
        List.Forall₂ Registry.Push.Alike (Arrival.pushes arrivals) (Arrival.pushes arrivals') →
        Registry.Push.AreNew h.manifests (Arrival.pushes arrivals) →
        Registry.Push.AreNew h'.manifests (Arrival.pushes arrivals') →
        List.Forall₂ (Matches Manifest.Alike) (Arrival.runAll h arrivals).2
            (Arrival.runAll h' arrivals').2 ∧
          (Arrival.runAll h arrivals).1.manifests.Alike (Arrival.runAll h' arrivals').1.manifests) ∧
      (h.manifests = h'.manifests → Arrival.pushes arrivals = Arrival.pushes arrivals' →
        (Arrival.runAll h arrivals).2 = (Arrival.runAll h' arrivals').2 ∧
          (Arrival.runAll h arrivals).1.manifests = (Arrival.runAll h' arrivals').1.manifests) := by
  refine ⟨fun {S} p m st => ?_, fun {W W'} h h' arrivals arrivals' => ⟨?_, ?_⟩⟩
  · have hlength : (p.sink.putAll st (Edge.putsFor m)).2.length = m.bundles.length := by
      rw [Edge.length_putAll, Edge.putsFor, List.length_map]
    simp only [Edge.propagate_eq]
    refine ⟨fun seen => ?_, hlength, rfl, rfl, ?_⟩
    · rw [Edge.putAll_watched]
      rfl
    · rw [Edge.Report.add_ofOutcomes, hlength]
  · intro hstores hpushes hnew hnew'
    obtain ⟨hstore, hanswers⟩ := Arrival.runAll_eq h arrivals
    obtain ⟨hstore', hanswers'⟩ := Arrival.runAll_eq h' arrivals'
    obtain ⟨halike, hleft⟩ := Registry.Push.runAll_alike hpushes hstores hnew hnew'
    rw [hstore, hstore', hanswers, hanswers']
    refine ⟨?_, hleft⟩
    rw [List.forall₂_map_left_iff, List.forall₂_map_right_iff]
    exact halike.imp fun answer answer' hanswer => by
      cases hanswer with
      | error error => exact .error _
      | ok h => exact .ok h
  · intro hstores hpushes
    obtain ⟨hstore, hanswers⟩ := Arrival.runAll_eq h arrivals
    obtain ⟨hstore', hanswers'⟩ := Arrival.runAll_eq h' arrivals'
    rw [hstore, hstore', hanswers, hanswers', hstores, hpushes]
    exact ⟨rfl, rfl⟩

/-- A way to the edge on which one key is refused and another never answered. -/
def flaky : Edge.Propagator Edge.Records where
  sink := Edge.scriptedSink
    { refuses := (· == "p:logic:users:put"), stalls := (· == "p:logic:users:list") }
  timeoutMillis := 50

/-- A hub without a way to the edge. -/
def silentHub : Hub Unit where
  planner := ⟨[], {}⟩
  state := ⟨⟨.emptyMemory, Vault.zeroKey⟩, .emptyMemory, ()⟩
  manifests := .emptyMemory
  propagator := none

/-- A push of three bundles. -/
def userFunctions : Api.PushRequest :=
  ⟨"p", [byteBundle "users" "put" 120, byteBundle "users" "list" 121, byteBundle "users" "get" 122],
    none⟩

/-- Of three puts one is refused, one not answered and the last accepted; a hub without a way to
the edge answers the push alike. -/
theorem propagation_only_reports_flaky :
    let m := Registry.manifestOf "1" .epoch "p" userFunctions.bundles "local"
    let arrivals : List (Arrival Edge.Records) :=
      [.elsewhere .empty (some flaky), .push "1" .epoch userFunctions]
    let arrivals' : List (Arrival Unit) := [.push "2" ⟨60, 0⟩ userFunctions]
    (flaky.propagate m .empty).2 = ⟨1, 2⟩ ∧
      (⟨flaky.sink.watched, 50⟩ : Edge.Propagator _).propagate m (.empty, []) =
        (((flaky.propagate m .empty).1,
          [(("p:logic:users:put", Edge.recordBytes (byteBundle "users" "put" 120)),
              .refused (.transient "connection refused")),
            (("p:logic:users:list", Edge.recordBytes (byteBundle "users" "list" 121)), .never),
            (("p:logic:users:get", Edge.recordBytes (byteBundle "users" "get" 122)), .accepted)]),
          (flaky.propagate m .empty).2) ∧
      List.Forall₂ (Matches Manifest.Alike) (Arrival.runAll recordingHub arrivals).2
        (Arrival.runAll silentHub arrivals').2 := by
  intro m arrivals arrivals'
  obtain ⟨hputs, hpushes⟩ := propagation_only_reports
  obtain ⟨hwatched, -, haccepted, hfailed, -⟩ := hputs flaky m .empty
  refine ⟨?_, (hwatched []).trans rfl, ?_⟩
  · exact congrArg₂ Edge.Report.mk (haccepted.trans rfl) (hfailed.trans rfl)
  · refine ((hpushes recordingHub silentHub arrivals arrivals').1 (.refl _) ?_ ?_ ?_).1
    · exact .cons ⟨rfl, rfl, rfl⟩ .nil
    · exact ⟨List.nodup_singleton _, fun _ _ => rfl⟩
    · exact ⟨List.nodup_singleton _, fun _ _ => rfl⟩

end Hub

end ProjectHub
