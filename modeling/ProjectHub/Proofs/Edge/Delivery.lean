import ProjectHub.Hub.Basic
import ProjectHub.Proofs.Edge.Keys
import ProjectHub.Proofs.Manifest.History
import ProjectHub.Proofs.Run
import ProjectHub.Proofs.Vault.Sealing

/-!
# What the edge reads

A sink that accepts every put shows under each key the record put last under it.
So the latest record of a bundle or a secret is read under its own key unless a
record of another name that shares the key was put after it.
-/

namespace ProjectHub.Edge

variable {S : Type}

/-- A sink that accepts every put, behind which `read` shows what was put. -/
structure Sink.Accepts (sink : Sink S) (read : S → String → Option (List UInt8)) : Prop where
  accepted (key : String) (value : List UInt8) (st : S) : (sink.put key value st).2 = .accepted
  read_put {key : String} {value : List UInt8} {st : S}
    (h : (sink.put key value st).2 = .accepted) :
    read (sink.put key value st).1 = Function.update (read st) key (some value)

theorem memorySink_accepts :
    memorySink.Accepts fun records key => records.get? key where
  accepted _ _ _ := rfl
  read_put {key value records} _ := by
    funext other
    rw [memorySink, NameMap.get?_insert, Function.update_apply]
    exact if_congr eq_comm rfl rfl

/-- Records as they are put, oldest first. -/
abbrev Deliveries := List (Name × List UInt8)

/-- The record put last under a key. -/
def lastUnder (key : String) (sent : Deliveries) : Option (List UInt8) :=
  (sent.reverse.find? fun d => d.1.key = key).map Prod.snd

theorem lastUnder_append (key : String) (sent more : Deliveries) :
    lastUnder key (sent ++ more) = (lastUnder key more).or (lastUnder key sent) := by
  rw [lastUnder, List.reverse_append, List.find?_append, Option.map_or]
  rfl

theorem lastUnder_singleton (key : String) (d : Name × List UInt8) :
    lastUnder key [d] = if d.1.key = key then some d.2 else none := by
  rw [lastUnder, List.reverse_singleton, List.find?_singleton]
  by_cases h : d.1.key = key <;> simp [h]

/-- The record put last of a name. -/
def lastOf (a : Name) (sent : Deliveries) : Option (List UInt8) :=
  (sent.reverse.find? fun d => d.1 = a).map Prod.snd

theorem lastOf_append (a : Name) (sent more : Deliveries) :
    lastOf a (sent ++ more) = (lastOf a more).or (lastOf a sent) := by
  rw [lastOf, List.reverse_append, List.find?_append, Option.map_or]
  rfl

theorem lastOf_eq_none {a : Name} {sent : Deliveries} (h : ∀ d ∈ sent, d.1 ≠ a) :
    lastOf a sent = none := by
  simpa [lastOf] using fun b bytes hd => h (b, bytes) hd

/-- Where each name comes once, each record is the last of its name. -/
theorem lastOf_of_mem {sent : Deliveries} (hnames : (sent.map Prod.fst).Nodup) {a : Name}
    {bytes : List UInt8} (h : (a, bytes) ∈ sent) : lastOf a sent = some bytes := by
  cases hfind : sent.reverse.find? fun d => d.1 = a with
  | none =>
      have hother := List.find?_eq_none.mp hfind (a, bytes) (List.mem_reverse.mpr h)
      exact absurd (decide_eq_true rfl) hother
  | some d =>
      have hname : d.1 = a := by simpa using List.find?_some hfind
      have hmem : d ∈ sent := List.mem_reverse.mp (List.mem_of_find?_eq_some hfind)
      rw [lastOf, hfind, List.inj_on_of_nodup_map hnames hmem h hname]
      rfl

theorem exists_lastUnder_of_lastOf {a : Name} {sent : Deliveries} {bytes : List UInt8}
    (h : lastOf a sent = some bytes) : ∃ last, lastUnder a.key sent = some last := by
  obtain ⟨d, hfind, -⟩ := Option.map_eq_some_iff.mp h
  have hname : d.1 = a := by simpa using List.find?_some hfind
  rw [← Option.isSome_iff_exists, lastUnder, Option.isSome_map, List.find?_isSome]
  exact ⟨d, List.mem_of_find?_eq_some hfind, by simp [hname]⟩

/-- Where no other name shares its key, the record put last of a name is the one put last under
its key. -/
theorem lastUnder_key_eq_lastOf {a : Name} {sent : Deliveries}
    (h : ∀ d ∈ sent, d.1.key = a.key → d.1 = a) : lastUnder a.key sent = lastOf a sent := by
  have hsame : (sent.reverse.filter fun d => d.1.key = a.key) =
      sent.reverse.filter fun d => d.1 = a := by
    refine List.filter_congr fun d hd => ?_
    rw [decide_eq_decide]
    exact ⟨h d (List.mem_reverse.mp hd), congrArg Name.key⟩
  rw [lastUnder, lastOf, ← List.head?_filter, ← List.head?_filter, hsame]

def recordsOf (project : String) (bundles : List Bundle) : Deliveries :=
  bundles.map fun b => (.bundle project b.space b.name, recordBytes b)

theorem Propagator.fst_putRecord (p : Propagator S) (key : String) (value : List UInt8) (st : S) :
    (p.putRecord key value st).1 = (p.sink.put key value st).1 := by
  rw [putRecord]
  split <;> rename_i heq <;> rw [heq]

section Propagation

variable {p : Propagator S} {read : S → String → Option (List UInt8)} (h : p.sink.Accepts read)
include h

theorem read_putRecord (a : Name) (value : List UInt8) (st : S) (key : String) :
    read (p.putRecord a.key value st).1 key = (lastUnder key [(a, value)]).or (read st key) := by
  rw [p.fst_putRecord, h.read_put (h.accepted ..), lastUnder_singleton, Function.update_apply]
  by_cases hkey : a.key = key
  · simp [hkey]
  · simp [hkey, Ne.symm hkey]

theorem read_putBundles (project : String) (bundles : List Bundle) (st : S) (key : String) :
    read (p.putBundles project bundles st).1 key =
      (lastUnder key (recordsOf project bundles)).or (read st key) := by
  induction bundles generalizing st with
  | nil => rfl
  | cons b bundles ih =>
      show read (p.putBundles project bundles
        (p.putRecord (bundleKey project b) (recordBytes b) st).1).1 key = _
      have hrecords : recordsOf project (b :: bundles) =
          [(.bundle project b.space b.name, recordBytes b)] ++ recordsOf project bundles := rfl
      rw [ih, bundleKey_eq_key, read_putRecord h, hrecords, lastUnder_append, Option.or_assoc]

end Propagation

end ProjectHub.Edge

namespace ProjectHub.Hub

variable {W : Type}

/-- An operation that sends records to the edge or changes the secrets. -/
inductive Call where
  | push (id : String) (now : Instant) (request : Api.PushRequest)
  | provision (nonce : Vault.Nonce) (project key : String) (edgeKey : List UInt8)
  | setSecret (nonce : Vault.Nonce) (now : Instant) (request : Api.SecretRequest)
  | deleteSecret (key : String) (query : Api.ProjectQuery)

inductive Answer where
  | pushed (result : Except Error Manifest)
  | provisioned (result : Except Error String)
  | done (result : Except Error Api.SuccessBody)

abbrev Event := Call × Answer

namespace Call

def run (h : Hub W) : Call → Hub W × Answer
  | push id now request => Prod.map (·) .pushed (h.pushManifest id now request)
  | provision nonce project key edgeKey =>
    Prod.map (·) .provisioned (h.provisionSecret nonce project key edgeKey)
  | setSecret nonce now request => Prod.map (·) .done (h.setSecret nonce now request)
  | deleteSecret key query => Prod.map (·) .done (h.deleteSecret key query)

/-- The hub after an operation, and what it adds to the history. -/
def record (h : Hub W) (call : Call) : Hub W × Event :=
  ((call.run h).1, call, (call.run h).2)

/-- The hub after operations in their order, and the history they make, oldest first. -/
def runAll (h : Hub W) (calls : List Call) : Hub W × List Event :=
  ProjectHub.runAll record h calls

end Call

/-- The records that an operation sent, by its answer: those of an admitted manifest, or that of
a secret sealed for the edge. -/
def Event.sent : Event → Edge.Deliveries
  | (_, .pushed (.ok m)) => Edge.recordsOf m.project m.bundles
  | (.provision _ project key _, .provisioned (.ok sealed)) =>
    [(.secret project key, Text.toUtf8 sealed)]
  | _ => []

/-- The records that a history sent, oldest first. -/
def sentBy (history : List Event) : Edge.Deliveries :=
  history.flatMap Event.sent

theorem sentBy_concat (history : List Event) (e : Event) :
    sentBy (history ++ [e]) = sentBy history ++ e.sent := by
  rw [sentBy, List.flatMap_append, List.flatMap_singleton, sentBy]

section Reading

variable {p : Edge.Propagator W} {read : W → String → Option (List UInt8)}
  (hsink : p.sink.Accepts read)
include hsink

/-- What an operation sends is read at the edge, and nothing else changes there. -/
theorem Call.read_run {h : Hub W} (hp : h.propagator = some p) (call : Call) :
    (call.run h).1.propagator = some p ∧ ∀ key, read (call.run h).1.world key =
      (Edge.lastUnder key (Event.sent (call, (call.run h).2))).or (read h.world key) := by
  cases call with
  | push id now request =>
      rw [run, pushManifest]
      cases Registry.push h.manifests id now request.project request.bundles
        (request.createdBy.getD defaultAuthor) with
      | error error => exact ⟨hp, fun key => rfl⟩
      | ok result =>
          obtain ⟨manifests, m⟩ := result
          simp only [hp, Prod.map]
          exact ⟨rfl, Edge.read_putBundles hsink m.project m.bundles h.world⟩
  | provision nonce project key edgeKey =>
      rw [run, provisionSecret]
      cases h.state.vault.reencrypt nonce project key edgeKey with
      | error error => exact ⟨hp, fun key => rfl⟩
      | ok sealed =>
          simp only [sendRecord, hp, Prod.map, Edge.secretKey_eq_key]
          exact ⟨hp, Edge.read_putRecord hsink _ _ h.world⟩
  | setSecret nonce now request =>
      rw [run, Hub.setSecret]
      cases h.state.vault.set nonce now request.project request.key request.value.expose with
      | error error => exact ⟨hp, fun key => rfl⟩
      | ok vault => exact ⟨hp, fun key => rfl⟩
  | deleteSecret key query =>
      rw [run, Hub.deleteSecret]
      cases h.state.vault.delete query.project key with
      | error error => exact ⟨hp, fun key => rfl⟩
      | ok vault => exact ⟨hp, fun key => rfl⟩

/-- Under each key the edge reads what was put last under it. -/
theorem Call.read_runAll {h : Hub W} (hp : h.propagator = some p) (calls : List Call) :
    ∀ key, read (runAll h calls).1.world key =
      (Edge.lastUnder key (sentBy (runAll h calls).2)).or (read h.world key) := by
  refine And.right (runAll_of_step (P := fun _ (hub : Hub W) history =>
    hub.propagator = some p ∧ ∀ key, read hub.world key =
      (Edge.lastUnder key (sentBy history)).or (read h.world key)) ?_ ⟨hp, fun _ => rfl⟩)
  rintro - call hub history - ⟨hhub, hread⟩
  obtain ⟨hnext, hsent⟩ := call.read_run hsink hhub
  refine ⟨hnext, fun key => (hsent key).trans ?_⟩
  rw [hread, sentBy_concat, Edge.lastUnder_append, Option.or_assoc]
  rfl

end Reading

/-! ## Latest records -/

def Event.manifest? : Event → Option Manifest
  | (_, .pushed (.ok m)) => some m
  | _ => none

/-- The sealed text of a secret that an operation provisioned. -/
def Event.sealed? (project key : String) : Event → Option String
  | (.provision _ p k _, .provisioned (.ok sealed)) =>
    if p = project ∧ k = key then some sealed else none
  | _ => none

def lastManifest (project : String) (history : List Event) : Option Manifest :=
  (history.filterMap Event.manifest?).reverse.find? fun m => m.project = project

/-- The sealed text of a secret when it was last provisioned. -/
def lastSealed (project key : String) (history : List Event) : Option String :=
  (history.filterMap (Event.sealed? project key)).getLast?

/-- The latest record of a name: of a bundle as the last manifest of its project has it, of a
secret as it was last provisioned. -/
def latestRecord (history : List Event) : Edge.Name → Option (List UInt8)
  | .bundle project space name =>
    (lastManifest project history).bind fun m =>
      (m.bundles.find? fun b => b.space = space ∧ b.name = name).map Edge.recordBytes
  | .secret project key => (lastSealed project key history).map Text.toUtf8

/-- An operation sends its records under names that are admitted, each once. -/
theorem Call.names_run (h : Hub W) (call : Call) :
    ((Event.sent (call, (call.run h).2)).map Prod.fst).Nodup ∧
      ∀ d ∈ Event.sent (call, (call.run h).2), d.1.Admitted := by
  cases call with
  | push id now request =>
      rw [run, pushManifest]
      cases hpush : Registry.push h.manifests id now request.project request.bundles
          (request.createdBy.getD defaultAuthor) with
      | error error => exact ⟨.nil, fun d hd => (nomatch hd)⟩
      | ok result =>
          obtain ⟨hcheck, hm⟩ := Registry.admitted_of_push hpush
          obtain ⟨hblank, hnamed, hdistinct⟩ := Registry.checkPush_eq_ok_iff.mp hcheck
          have hsent : Event.sent (.push id now request, .pushed (.ok result.2)) =
              Edge.recordsOf request.project request.bundles := by
            rw [hm]
            rfl
          simp only [Prod.map, hsent, Edge.recordsOf, List.map_map, List.forall_mem_map]
          refine ⟨?_, fun b hb => ⟨hblank, hnamed b hb⟩⟩
          refine List.Nodup.of_map (fun a : Edge.Name => match a with
            | .bundle _ space name => (space, name)
            | .secret _ key => (key, key)) ?_
          rw [List.map_map]
          exact hdistinct
  | provision nonce project key edgeKey =>
      rw [run, provisionSecret]
      cases hsealed : h.state.vault.reencrypt nonce project key edgeKey with
      | error error => exact ⟨.nil, fun d hd => (nomatch hd)⟩
      | ok sealed =>
          refine ⟨List.nodup_singleton _, fun d hd => ?_⟩
          obtain ⟨_, -, hget⟩ := exists_of_bind_ok hsealed
          obtain ⟨_, hget, -⟩ := exists_of_bind_ok hget
          obtain ⟨_, hnames, -⟩ := exists_of_bind_ok hget
          rw [List.mem_singleton.mp hd]
          exact hnames
  | setSecret nonce now request =>
      rw [run, Hub.setSecret]
      cases h.state.vault.set nonce now request.project request.key request.value.expose <;>
        exact ⟨.nil, fun d hd => (nomatch hd)⟩
  | deleteSecret key query =>
      rw [run, Hub.deleteSecret]
      cases h.state.vault.delete query.project key <;> exact ⟨.nil, fun d hd => (nomatch hd)⟩

theorem Call.names_runAll (h : Hub W) (calls : List Call) :
    ∀ e ∈ (runAll h calls).2, (e.sent.map Prod.fst).Nodup ∧ ∀ d ∈ e.sent, d.1.Admitted := by
  refine runAll_of_step (P := fun _ _ (history : List Event) => ∀ e ∈ history,
    (e.sent.map Prod.fst).Nodup ∧ ∀ d ∈ e.sent, d.1.Admitted) ?_ fun e he => (nomatch he)
  intro _ call hub history _ hnames e he
  rcases List.mem_append.mp he with he | he
  · exact hnames e he
  · rw [List.mem_singleton.mp he]
    exact call.names_run hub

section Latest

variable {history : List Event}

theorem lastManifest_cons (project : String) (e : Event) :
    lastManifest project (e :: history) =
      (lastManifest project history).or (e.manifest?.filter fun m => m.project = project) := by
  rw [lastManifest, List.filterMap_cons]
  cases hm : e.manifest? with
  | none => simp [lastManifest]
  | some m =>
      simp only [List.reverse_cons, List.find?_append, List.find?_singleton, Option.filter_some]
      rfl

theorem lastSealed_cons (project key : String) (e : Event) :
    lastSealed project key (e :: history) =
      (lastSealed project key history).or (e.sealed? project key) := by
  rw [lastSealed, List.filterMap_cons]
  cases hm : e.sealed? project key with
  | none => simp [lastSealed]
  | some sealed =>
      rw [lastSealed, List.getLast?_cons]
      cases (history.filterMap (Event.sealed? project key)).getLast? <;> rfl

theorem lastManifest_eq_none {project : String} (h : lastManifest project history = none) :
    ∀ e ∈ history, (e.manifest?.filter fun m => m.project = project) = none := by
  induction history with
  | nil => exact fun e he => (nomatch he)
  | cons e history ih =>
      rw [lastManifest_cons, Option.or_eq_none_iff] at h
      exact List.forall_mem_cons.mpr ⟨h.2, ih h.1⟩

theorem lastSealed_eq_none {project key : String} (h : lastSealed project key history = none) :
    ∀ e ∈ history, e.sealed? project key = none := by
  induction history with
  | nil => exact fun e he => (nomatch he)
  | cons e history ih =>
      rw [lastSealed_cons, Option.or_eq_none_iff] at h
      exact List.forall_mem_cons.mpr ⟨h.2, ih h.1⟩

theorem mem_sent_bundle_iff {e : Event} {project space name : String} {bytes : List UInt8} :
    (.bundle project space name, bytes) ∈ e.sent ↔
      ∃ m, (e.manifest?.filter fun m => m.project = project) = some m ∧
        ∃ b ∈ m.bundles, (b.space = space ∧ b.name = name) ∧ Edge.recordBytes b = bytes := by
  obtain ⟨call, answer⟩ := e
  rcases answer with (error | m) | (error | sealed) | result
  case pushed.ok =>
    simp only [Event.sent, Event.manifest?, Edge.recordsOf, List.mem_map, Prod.mk.injEq,
      Edge.Name.bundle.injEq, Option.filter_eq_some_iff, Option.some.injEq, decide_eq_true_eq]
    constructor
    · rintro ⟨b, hb, ⟨hproject, hnames⟩, hbytes⟩
      exact ⟨m, ⟨rfl, hproject⟩, b, hb, hnames, hbytes⟩
    · rintro ⟨m', ⟨rfl, hproject⟩, b, hb, hnames, hbytes⟩
      exact ⟨b, hb, ⟨hproject, hnames⟩, hbytes⟩
  all_goals cases call <;> simp [Event.sent, Event.manifest?]

theorem mem_sent_secret_iff {e : Event} {project key : String} {bytes : List UInt8} :
    (.secret project key, bytes) ∈ e.sent ↔
      ∃ sealed, e.sealed? project key = some sealed ∧ Text.toUtf8 sealed = bytes := by
  obtain ⟨call, answer⟩ := e
  rcases answer with (error | m) | (error | sealed) | result
  case provisioned.ok =>
    cases call with
    | provision nonce p k edgeKey =>
        by_cases hnames : p = project ∧ k = key
        · simp [Event.sent, Event.sealed?, hnames, eq_comm]
        · have hother : ¬ (project = p ∧ key = k) := fun h => hnames ⟨h.1.symm, h.2.symm⟩
          simp [Event.sent, Event.sealed?, hnames, hother]
    | push id now request => simp [Event.sent, Event.sealed?]
    | setSecret nonce now request => simp [Event.sent, Event.sealed?]
    | deleteSecret k query => simp [Event.sent, Event.sealed?]
  all_goals cases call <;> simp [Event.sent, Event.sealed?, Edge.recordsOf]

/-- The latest record of a name is the one put last of that name. -/
theorem lastOf_of_latestRecord (hnames : ∀ e ∈ history, (e.sent.map Prod.fst).Nodup)
    {a : Edge.Name} {bytes : List UInt8} (h : latestRecord history a = some bytes) :
    Edge.lastOf a (sentBy history) = some bytes := by
  induction history with
  | nil => cases a <;> cases h
  | cons e history ih =>
      obtain ⟨hfirst, hnames⟩ := List.forall_mem_cons.mp hnames
      -- either a later operation sent it, or the first did and none after it
      have hlater (hlast : latestRecord history a = some bytes) :
          Edge.lastOf a (sentBy (e :: history)) = some bytes := by
        rw [sentBy, List.flatMap_cons, Edge.lastOf_append, ← sentBy, ih hnames hlast, Option.some_or]
      have hnow (hmem : (a, bytes) ∈ e.sent) (hnone : ∀ d ∈ sentBy history, d.1 ≠ a) :
          Edge.lastOf a (sentBy (e :: history)) = some bytes := by
        rw [sentBy, List.flatMap_cons, Edge.lastOf_append, ← sentBy, Edge.lastOf_eq_none hnone,
          Option.none_or, Edge.lastOf_of_mem hfirst hmem]
      cases a with
      | bundle project space name =>
          rw [latestRecord, lastManifest_cons] at h
          cases hlast : lastManifest project history with
          | some m =>
              refine hlater ?_
              rw [hlast, Option.some_or] at h
              rw [latestRecord, hlast, h]
          | none =>
              rw [hlast, Option.none_or] at h
              obtain ⟨m, hm, hfind⟩ := Option.bind_eq_some_iff.mp h
              obtain ⟨b, hfind, hbytes⟩ := Option.map_eq_some_iff.mp hfind
              refine hnow (mem_sent_bundle_iff.mpr ⟨m, hm, b, List.mem_of_find?_eq_some hfind,
                by simpa using List.find?_some hfind, hbytes⟩) ?_
              rintro ⟨_, record⟩ hd rfl
              obtain ⟨e', he', hd⟩ := List.mem_flatMap.mp hd
              obtain ⟨m', hm', -⟩ := mem_sent_bundle_iff.mp hd
              rw [lastManifest_eq_none hlast e' he'] at hm'
              cases hm'
      | secret project key =>
          rw [latestRecord, lastSealed_cons] at h
          cases hlast : lastSealed project key history with
          | some sealed =>
              refine hlater ?_
              rw [hlast, Option.some_or] at h
              rw [latestRecord, hlast, h]
          | none =>
              rw [hlast, Option.none_or] at h
              obtain ⟨sealed, hsealed, hbytes⟩ := Option.map_eq_some_iff.mp h
              refine hnow (mem_sent_secret_iff.mpr ⟨sealed, hsealed, hbytes⟩) ?_
              rintro ⟨_, record⟩ hd rfl
              obtain ⟨e', he', hd⟩ := List.mem_flatMap.mp hd
              obtain ⟨sealed', hsealed', -⟩ := mem_sent_secret_iff.mp hd
              rw [lastSealed_eq_none hlast e' he'] at hsealed'
              cases hsealed'

end Latest

/-- Over a sink that accepts every put the edge reads under each key what was put last under it.
So the latest record of a bundle or a secret is read under its own key where no record of a name
that is cut otherwise from the same key was sent, and otherwise exactly if what was put last
under the key is the same. Two projects have such names exactly if the identifier of one
continues that of the other with a kind of records. -/
theorem read_after_runAll {h : Hub W} {p : Edge.Propagator W}
    {read : W → String → Option (List UInt8)} (hp : h.propagator = some p)
    (hsink : p.sink.Accepts read) (calls : List Call) :
    let world := (Call.runAll h calls).1.world
    let history := (Call.runAll h calls).2
    (∀ key, read world key = (Edge.lastUnder key (sentBy history)).or (read h.world key)) ∧
    (∀ a bytes, latestRecord history a = some bytes →
      ((∀ d ∈ sentBy history, ¬ a.Shifted d.1 ∧ ¬ d.1.Shifted a) →
        read world a.key = some bytes) ∧
      (read world a.key = some bytes ↔ Edge.lastUnder a.key (sentBy history) = some bytes)) ∧
    (∀ d ∈ sentBy history, d.1.Admitted) ∧
    (∀ a b : Edge.Name, a.key = b.key ↔ a = b ∨ a.Shifted b ∨ b.Shifted a) ∧
    ∀ p q, p ≠ q → Text.isBlankText p = false → Text.isBlankText q = false →
      ((∃ a b : Edge.Name, a.Admitted ∧ b.Admitted ∧ a.project = p ∧ b.project = q ∧
        a.key = b.key) ↔ Edge.Continues p q ∨ Edge.Continues q p) := by
  intro world history
  have hread : ∀ key, read world key =
      (Edge.lastUnder key (sentBy history)).or (read h.world key) :=
    Call.read_runAll hsink hp calls
  have hnames := Call.names_runAll h calls
  refine ⟨hread, fun a bytes hlatest => ?_, fun d hd => ?_, fun a b => Edge.Name.key_eq_iff,
    fun p q hne hp hq => Edge.Name.exists_key_eq_iff hne hp hq⟩
  · have hlast := lastOf_of_latestRecord (fun e he => (hnames e he).1) hlatest
    obtain ⟨last, hunder⟩ : ∃ last, Edge.lastUnder a.key (sentBy history) = some last :=
      Edge.exists_lastUnder_of_lastOf hlast
    refine ⟨fun hapart => ?_, ?_⟩
    · have hown : ∀ d ∈ sentBy history, d.1.key = a.key → d.1 = a := by
        intro d hd hkey
        rcases Edge.Name.key_eq_iff.mp hkey with hsame | hshifted | hshifted
        · exact hsame
        · exact absurd hshifted (hapart d hd).2
        · exact absurd hshifted (hapart d hd).1
      rw [hread, Edge.lastUnder_key_eq_lastOf hown, hlast, Option.some_or]
    · rw [hread, hunder, Option.some_or]
  · obtain ⟨e, he, hd⟩ := List.mem_flatMap.mp hd
    exact (hnames e he).2 d hd

/-- A hub in memory whose records go to a sink in memory. -/
def recordingHub : Hub Edge.Records where
  planner := ⟨[], {}⟩
  state := ⟨⟨.emptyMemory, Vault.zeroKey⟩, .emptyMemory, .empty⟩
  manifests := .emptyMemory
  propagator := some ⟨Edge.memorySink, 10000⟩

def byteBundle (space name : String) (byte : UInt8) : Bundle :=
  ⟨.logic, space, name, "h", [byte], none⟩

/-- Pushes of three projects, of which the second has an identifier that continues that of the
first. -/
def overlapping : List Call :=
  [.push "1" .epoch ⟨"p", [byteBundle "logic" "a:b" 120], none⟩,
    .push "2" .epoch ⟨"p:logic", [byteBundle "a" "b" 121], none⟩,
    .push "3" .epoch ⟨"q", [byteBundle "a" "b" 122], none⟩]

theorem read_after_runAll_overlapping :
    let records := (Call.runAll recordingHub overlapping).1.world
    latestRecord (Call.runAll recordingHub overlapping).2 (.bundle "p" "logic" "a:b") =
        some (Edge.recordBytes (byteBundle "logic" "a:b" 120)) ∧
      records.get? "p:logic:logic:a:b" = some (Edge.recordBytes (byteBundle "a" "b" 121)) ∧
      records.get? "q:logic:a:b" = some (Edge.recordBytes (byteBundle "a" "b" 122)) := by
  obtain ⟨hread, hlatest, -⟩ :=
    read_after_runAll (h := recordingHub) rfl Edge.memorySink_accepts overlapping
  refine ⟨rfl, (hread _).trans rfl, ?_⟩
  exact (hlatest (.bundle "q" "a" "b") _ rfl).2.mpr rfl

end ProjectHub.Hub
