import ProjectHub.Proofs.Plan.Content
import ProjectHub.Proofs.Run

/-!
# Documents that stand

Without a live database the documents of the plan applied last stand for a project
until another plan is applied, however many are made in between. They are what the
project answers with, and what every later plan is compared with.
-/

namespace ProjectHub.Plan

variable {W : Type}

/-! ## What a plan lists -/

/-- Whether a migration is the one for an alias of documents. -/
def IsFor (now : Instant) (project : String) (documents : Documents) (name : String)
    (migration : Migration) : Prop :=
  ∃ text, documents.get? name = some text ∧
    migration = .propose now project text ("-- Mock migration for " ++ name)
      ("schema update for " ++ name ++ " (mock)")

/-- A plan against applied documents lists one migration for each alias whose text differs from
the one applied, blanks aside, in the order of the aliases. -/
theorem contentMigrations_isFor (now : Instant) (project : String) (current documents : Documents) :
    ∃ names : List String, names.Pairwise (· < ·) ∧
      (∀ name, name ∈ names ↔ ∃ text, documents.get? name = some text ∧
        Text.trim text ≠ Text.trim ((current.get? name).getD "")) ∧
      List.Forall₂ (IsFor now project documents) names
        (contentMigrations now project current documents) := by
  refine ⟨(changedDocuments current documents).map Prod.fst, ?_, fun name => ?_, ?_⟩
  · exact List.pairwise_map.mpr (documents.ordered.filter _)
  · rw [List.mem_map]
    constructor
    · rintro ⟨entry, hentry, rfl⟩
      obtain ⟨hmem, hchanged⟩ := List.mem_filter.mp hentry
      exact ⟨entry.2, NameMap.mem_toList_iff.mp hmem, (bne_iff_ne.mp hchanged).symm⟩
    · rintro ⟨text, htext, hchanged⟩
      exact ⟨(name, text), List.mem_filter.mpr
        ⟨NameMap.mem_toList_iff.mpr htext, bne_iff_ne.mpr hchanged.symm⟩, rfl⟩
  · rw [contentMigrations, List.forall₂_map_left_iff, List.forall₂_map_right_iff,
      List.forall₂_same]
    intro entry hentry
    exact ⟨entry.2, NameMap.mem_toList_iff.mp (List.mem_filter.mp hentry).1, rfl⟩

/-- What a plan against applied documents answers. -/
theorem State.planWith_contentHash {st : State W} {accounts : Accounts}
    (h : st.ledger.Holds accounts) {project : String} {documents : Documents}
    (hinput : checkPlanInput project documents = .ok ()) (now : Instant) :
    let migrations := contentMigrations now project
      ((accounts project).applied.getD .empty) documents
    (st.planWith .contentHash now project documents).2 =
      .ok ⟨migrations, !migrations.isEmpty, contentSummary migrations,
        (accounts project).generation + 1⟩ := by
  simp only [planWith, hinput, migrationsFor, Ledger.getState_of_holds h,
    Ledger.token_savePlan h, bind, Except.bind, Except.mapError, pure, Except.pure]

/-! ## What a history tells of applied documents -/

namespace Event

/-- The token of a plan whose documents a project took over: it was applied, or it was carried
out and then could not be cleared. -/
def takenOf? (project : String) : Event → Option Nat
  | applied other (some token) (.ok ()) => if other = project then some token else none
  | applied other (some token) (.error (.store (.generation _))) =>
    if other = project ∧ 0x8000000000000000 ≤ token then some token else none
  | _ => none

theorem planOf?_planned_of_ne {project other : String} (h : other ≠ project)
    (documents : Documents) (answer : Except Error Proposal) :
    (planned other documents answer).planOf? project = none := by
  cases answer with
  | ok proposal => rw [planOf?, if_neg h]
  | error error => rfl

theorem takenOf?_applied_of_ne {project other : String} (h : other ≠ project)
    (token : Option Nat) (answer : Except Error Unit) :
    (applied other token answer).takenOf? project = none := by
  unfold takenOf?
  split
  · rename_i heq
    cases heq
    rw [if_neg h]
  · rename_i heq
    cases heq
    rw [if_neg fun hsame => h hsame.1]
  · rfl

theorem exists_of_takenOf? {project : String} {event : Event} {token : Nat}
    (h : event.takenOf? project = some token) :
    event = applied project (some token) (.ok ()) ∨ 0x8000000000000000 ≤ token ∧
      ∃ refused, event = applied project (some token) (.error (.store (.generation refused))) := by
  unfold takenOf? at h
  split at h
  · split at h <;> cases h
    rename_i hsame
    exact .inl (hsame ▸ rfl)
  · split at h <;> cases h
    rename_i hsame
    obtain ⟨rfl, hrange⟩ := hsame
    exact .inr ⟨hrange, _, rfl⟩
  · cases h

end Event

/-- The plans that a project was given, in their order. -/
def plansOf (project : String) (history : List Event) : List (Nat × Documents) :=
  history.filterMap (Event.planOf? project)

/-- The token of the plan whose documents a project took over last. -/
def lastTaken (project : String) (history : List Event) : Option Nat :=
  history.reverse.findSome? (Event.takenOf? project)

theorem lastTaken_append (project : String) (history : List Event) (event : Event) :
    lastTaken project (history ++ [event]) =
      (event.takenOf? project).or (lastTaken project history) := by
  simp only [lastTaken, List.reverse_append, List.reverse_singleton, List.singleton_append,
    List.findSome?_cons]
  cases event.takenOf? project <;> rfl

/-- A token that was applied is the last one until another takes its place. -/
theorem lastTaken_applied {project : String} {after : List Event}
    (hafter : ∀ event ∈ after, event.takenOf? project = none) (before : List Event) (token : Nat) :
    lastTaken project (before ++ .applied project (some token) (.ok ()) :: after) =
      some token := by
  have hnone : after.reverse.findSome? (Event.takenOf? project) = none :=
    List.findSome?_eq_none_iff.mpr fun event hevent => hafter event (List.mem_reverse.mp hevent)
  rw [lastTaken, List.reverse_append, List.reverse_cons, List.append_assoc, List.findSome?_append,
    hnone, Option.none_or, List.singleton_append, List.findSome?_cons, Event.takenOf?, if_pos rfl]

/-- A history in which the documents that stand for a project are told. -/
structure Stands (project : String) (history : List Event) (a : Account) : Prop where
  /-- Only a project with a name is given plans. -/
  named : ∀ plan ∈ plansOf project history, checkProject project = .ok ()
  /-- Its plans are numbered from one. -/
  numbered : (plansOf project history).map Prod.fst = List.range' 1 a.generation
  /-- The plan on record is one of them. -/
  onRecord : ∀ plan, a.onRecord = some plan →
    (plan.generation, plan.documents) ∈ plansOf project history
  /-- What is applied are the documents taken over last. -/
  taken : ∀ token, lastTaken project history = some token →
    ∃ documents, (token, documents) ∈ plansOf project history ∧ a.applied = some documents

namespace Stands

theorem empty (project : String) : Stands project [] {} where
  named _ h := nomatch h
  numbered := rfl
  onRecord _ h := nomatch h
  taken _ h := nomatch h

variable {project : String} {history : List Event} {a : Account} (h : Stands project history a)
include h

/-- No two plans of a project have one token. -/
theorem documents_unique {token : Nat} {first second : Documents}
    (hfirst : (token, first) ∈ plansOf project history)
    (hsecond : (token, second) ∈ plansOf project history) : first = second := by
  have hnodup : ((plansOf project history).map Prod.fst).Nodup := by
    rw [h.numbered]
    exact List.nodup_range'
  exact congrArg Prod.snd (List.inj_on_of_nodup_map hnodup hfirst hsecond rfl)

/-- An event that gives the project no plan and takes none over tells nothing new. -/
theorem silent {event : Event} (hplan : event.planOf? project = none)
    (htaken : event.takenOf? project = none) : Stands project (history ++ [event]) a := by
  have hplans : plansOf project (history ++ [event]) = plansOf project history := by
    rw [plansOf, filterMap_concat, hplan, Option.toList_none, List.append_nil, plansOf]
  refine ⟨hplans ▸ h.named, hplans ▸ h.numbered, hplans ▸ h.onRecord, ?_⟩
  rw [hplans, lastTaken_append, htaken, Option.none_or]
  exact h.taken

/-- A new plan has the next number. -/
theorem planned (hproject : checkProject project = .ok ()) (documents : Documents)
    (now : Instant) {proposal : Proposal} (htoken : proposal.token = a.generation + 1) :
    Stands project (history ++ [.planned project documents (.ok proposal)])
      (a.plan documents now) := by
  have hplans : plansOf project (history ++ [.planned project documents (.ok proposal)]) =
      plansOf project history ++ [(a.generation + 1, documents)] := by
    rw [plansOf, filterMap_concat, Event.planOf?, if_pos rfl, htoken, Option.toList_some, plansOf]
  refine ⟨fun _ _ => hproject, ?_, fun plan hplan => ?_, fun token htaken => ?_⟩
  · rw [hplans, List.map_append, h.numbered, Account.plan, List.range'_1_concat, Nat.add_comm 1]
    rfl
  · cases hplan
    rw [hplans]
    exact List.mem_append_right _ (List.mem_singleton.mpr rfl)
  · rw [lastTaken_append] at htaken
    obtain ⟨given, hgiven, happlied⟩ := h.taken token htaken
    exact ⟨given, hplans ▸ List.mem_append_left _ hgiven, happlied⟩

/-- The plan on record that is taken over stands from then on. -/
theorem takes {event : Event} {plan : Planned} (hplan : a.onRecord = some plan)
    (hnoPlan : event.planOf? project = none)
    (htaken : event.takenOf? project = some plan.generation) {b : Account}
    (hgeneration : b.generation = a.generation) (happlied : b.applied = some plan.documents)
    (hplanned : b.planned = none ∨ b.planned = a.planned) :
    Stands project (history ++ [event]) b := by
  have hplans : plansOf project (history ++ [event]) = plansOf project history := by
    rw [plansOf, filterMap_concat, hnoPlan, Option.toList_none, List.append_nil, plansOf]
  refine ⟨hplans ▸ h.named, ?_, fun other hother => ?_, fun token htoken => ?_⟩
  · rw [hplans, hgeneration]
    exact h.numbered
  · rw [hplans]
    rcases hplanned with hgone | hkept
    · rw [Account.onRecord, hgone] at hother
      cases hother
    · rw [Account.onRecord, hkept, hgeneration] at hother
      exact h.onRecord other hother
  · rw [lastTaken_append, htaken, Option.some_or] at htoken
    cases htoken
    exact ⟨plan.documents, hplans ▸ h.onRecord plan hplan, happlied⟩

end Stands

/-! ## Runs by documents -/

namespace Call

/-- Whether a call, if it is on a project, works on documents. -/
def ByDocuments (project : String) : Call W → Prop
  | plan strategy _ other _ => other = project → strategy = .contentHash
  | apply strategy other _ _ => other = project → strategy = .contentHash

end Call

/-- A state whose ledger has the documents that stand for a project. -/
def Standing (project : String) (st : State W) (history : List Event) : Prop :=
  ∃ accounts, st.ledger.Holds accounts ∧ Stands project history (accounts project)

namespace Standing

variable {project : String} {st : State W} {history : List Event}
  (h : Standing project st history)
include h

theorem silent {event : Event} (hplan : event.planOf? project = none)
    (htaken : event.takenOf? project = none) : Standing project st (history ++ [event]) := by
  obtain ⟨accounts, hholds, hstands⟩ := h
  exact ⟨accounts, hholds, hstands.silent hplan htaken⟩

omit h in
/-- A call on another project leaves what stands. -/
theorem spared {next : State W} {accounts : Accounts} {other : String} (hother : other ≠ project)
    {a : Account} (hstands : Stands project history (accounts project))
    (hnext : next.ledger.Holds (Function.update accounts other a)) {event : Event}
    (hplan : event.planOf? project = none) (htaken : event.takenOf? project = none) :
    Standing project next (history ++ [event]) := by
  refine ⟨_, hnext, ?_⟩
  rw [Function.update_of_ne hother.symm]
  exact hstands.silent hplan htaken

theorem plan {strategy : Strategy W} {now : Instant} (hnow : st.ledger.Keeps now)
    (other : String) (documents : Documents) :
    Standing project (st.planWith strategy now other documents).1
      (history ++ [.planned other documents (st.planWith strategy now other documents).2]) := by
  obtain ⟨accounts, hholds, hstands⟩ := id h
  by_cases hother : other = project
  · subst hother
    rcases State.planWith_cases hholds strategy other hnow documents with
      ⟨error, hrefused⟩ | ⟨migrations, summary, -, hplanned⟩
    · rw [hrefused]
      exact h.silent rfl rfl
    · have hproject : checkProject other = .ok () := by
        cases hproject : checkProject other with
        | ok u => rfl
        | error error =>
            simp [State.planWith, checkPlanInput, hproject, bind, Except.bind] at hplanned
      rw [hplanned]
      refine ⟨_, (Ledger.savePlan_of_holds hholds other documents hnow).2, ?_⟩
      rw [Function.update_self]
      exact hstands.planned hproject documents now rfl
  · obtain ⟨a, hnext, -⟩ :=
      @State.exists_holds_planWith _ _ _ hholds strategy other now hnow documents
    exact spared hother hstands hnext (Event.planOf?_planned_of_ne hother ..) rfl

theorem apply {strategy : Strategy W} {other : String}
    (hcontent : other = project → strategy = .contentHash) (migrations : List Migration)
    (token : Option Nat) :
    Standing project (st.applyWith strategy other migrations token).1
      (history ++ [.applied other token (st.applyWith strategy other migrations token).2]) := by
  obtain ⟨accounts, hholds, hstands⟩ := id h
  by_cases hother : other = project
  · subst hother
    obtain rfl := hcontent rfl
    cases hproject : checkProject other with
    | error error =>
        simp only [State.applyWith, hproject]
        obtain rfl := checkProject_error hproject
        refine h.silent rfl ?_
        cases token <;> rfl
    | ok u =>
        cases hplan : (accounts other).onRecord with
        | none =>
            rw [State.applyWith_of_unplanned hholds .contentHash hproject hplan]
            refine h.silent rfl ?_
            cases token <;> rfl
        | some plan =>
            by_cases htoken : token = some plan.generation
            · subst htoken
              rw [State.applyWith_of_planned hholds .contentHash hplan hproject]
              obtain ⟨a, hfinish, hgeneration, happlied, hplanned, hanswer⟩ :=
                State.holds_finish_contentHash hholds hplan
              refine ⟨_, hfinish, ?_⟩
              rw [Function.update_self]
              refine hstands.takes hplan rfl ?_ hgeneration happlied hplanned
              rcases hanswer with hok | ⟨hrange, herror⟩
              · rw [hok]
                exact if_pos rfl
              · rw [herror]
                exact if_pos ⟨rfl, hrange⟩
            · rw [State.applyWith_of_stale hholds .contentHash hplan hproject htoken]
              refine h.silent rfl ?_
              cases token <;> rfl
  · obtain ⟨a, hnext, -⟩ :=
      @State.exists_holds_applyWith _ _ _ hholds strategy other migrations token
    exact spared hother hstands hnext rfl (Event.takenOf?_applied_of_ne hother ..)

theorem run {call : Call W} (hkept : call.KeptBy st.ledger) (hcontent : call.ByDocuments project) :
    Standing project (call.run st).1 (history ++ [(call.run st).2]) := by
  cases call with
  | plan strategy now other documents => exact h.plan hkept other documents
  | apply strategy other migrations token => exact h.apply hcontent migrations token

theorem runAll (calls : List (Call W)) (hkept : ∀ call ∈ calls, call.KeptBy st.ledger)
    (hcontent : ∀ call ∈ calls, call.ByDocuments project) :
    Standing project (Call.runAll st calls).1 (history ++ (Call.runAll st calls).2) := by
  induction calls generalizing st history with
  | nil =>
      rw [Call.runAll, List.append_nil]
      exact h
  | cons call calls ih =>
      have hcall := h.run (hkept call List.mem_cons_self) (hcontent call List.mem_cons_self)
      have hrest := ih hcall
        (fun other hother => (Call.keptBy_run st call other).mpr
          (hkept other (List.mem_cons_of_mem _ hother)))
        fun other hother => hcontent other (List.mem_cons_of_mem _ hother)
      rw [List.append_assoc] at hrest
      exact hrest

end Standing

/-- Once a plan of documents was applied to a project without a live database, they stand until
another apply on the project succeeds, whatever was planned before or since and whatever happened
to other projects: each alias answers with its text, the others with none, and every plan lists
one migration for each of its aliases whose text differs from the one that stands, blanks aside,
in the order of the aliases. It has changes exactly when it lists any; the same documents with
other blanks around them have none. The one apply that takes over documents and yet fails has a
token beyond the range of the ledger's column. -/
theorem applied_documents_stand {start : Ledger}
    (hstart : start = .emptyMemory ∨ start = .emptyDatabase) (vault : Vault) (world : W)
    {calls : List (Call W)} (hkept : ∀ call ∈ calls, call.KeptBy start) {project : String}
    (hcontent : ∀ call ∈ calls, call.ByDocuments project) {before after : List Event}
    {documents : Documents} {proposal : Proposal}
    (hhistory : (Call.runAll ⟨vault, start, world⟩ calls).2 =
      before ++ .applied project (some proposal.token) (.ok ()) :: after)
    (hplanned : .planned project documents (.ok proposal) ∈ before)
    (hquiet : ∀ token, .applied project (some token) (.ok ()) ∉ after) :
    let st := (Call.runAll ⟨vault, start, world⟩ calls).1
    (∃ token refused, 0x8000000000000000 ≤ token ∧
      .applied project (some token) (.error (.store (.generation refused))) ∈ after) ∨
    (∀ name, st.currentState project name =
      (documents.get? name).elim (.error (.stateNotFound project name)) .ok) ∧
    ∀ now given, given.isEmpty = false →
      ∃ next, (st.planWith .contentHash now project given).2 = .ok next ∧
        (∃ names : List String, names.Pairwise (· < ·) ∧
          (∀ name, name ∈ names ↔ ∃ text, given.get? name = some text ∧
            Text.trim text ≠ Text.trim ((documents.get? name).getD "")) ∧
          List.Forall₂ (IsFor now project given) names next.migrations) ∧
        (next.hasChanges = true ↔ next.migrations ≠ []) ∧
        ((∀ name, (given.get? name).map Text.trim = (documents.get? name).map Text.trim) →
          next.hasChanges = false ∧ next.migrations = []) := by
  intro st
  rw [or_iff_not_imp_left]
  intro hrefused
  have hempty : Standing project (⟨vault, start, world⟩ : State W) [] := by
    rcases hstart with rfl | rfl
    · exact ⟨_, Ledger.holds_emptyMemory, .empty project⟩
    · exact ⟨_, Ledger.holds_emptyDatabase, .empty project⟩
  obtain ⟨accounts, hholds, hstands⟩ := hempty.runAll calls hkept hcontent
  rw [List.nil_append, hhistory] at hstands
  have hafter : ∀ event ∈ after, event.takenOf? project = none := by
    intro event hevent
    by_contra htaken
    obtain ⟨token, htoken⟩ := Option.ne_none_iff_exists'.mp htaken
    rcases Event.exists_of_takenOf? htoken with rfl | ⟨hrange, refused, rfl⟩
    · exact hquiet token hevent
    · exact hrefused ⟨token, refused, hrange, hevent⟩
  have hgiven : (proposal.token, documents) ∈ plansOf project
      (before ++ .applied project (some proposal.token) (.ok ()) :: after) :=
    List.mem_filterMap.mpr ⟨_, List.mem_append_left _ hplanned, if_pos rfl⟩
  obtain ⟨found, hfound, happlied⟩ :=
    hstands.taken _ (lastTaken_applied hafter before proposal.token)
  obtain rfl := hstands.documents_unique hgiven hfound
  refine ⟨fun name => ?_, fun now given hnonempty => ?_⟩
  · rw [State.currentState_of_holds hholds, Account.text?, happlied, Option.bind_some]
  · have hplan := State.planWith_contentHash hholds
      (checkPlanInput_eq_ok (hstands.named _ hgiven) hnonempty) now
    rw [happlied, Option.getD_some] at hplan
    obtain ⟨names, hordered, hnames, hlisted⟩ :=
      contentMigrations_isFor now project documents given
    refine ⟨_, hplan, ⟨names, hordered, hnames, hlisted⟩, by simp, fun hsame => ?_⟩
    have hnone : names = [] := by
      refine List.eq_nil_iff_forall_not_mem.mpr fun name hname => ?_
      obtain ⟨text, htext, hchanged⟩ := (hnames name).mp hname
      have htrim := hsame name
      rw [htext] at htrim
      cases hstood : documents.get? name with
      | none => simp [hstood] at htrim
      | some stood =>
          rw [hstood, Option.map_some, Option.map_some, Option.some.injEq] at htrim
          exact hchanged (by rw [htrim, hstood, Option.getD_some])
    rw [hnone, List.forall₂_nil_left_iff] at hlisted
    simp [hlisted]

section Kept

/-- The documents of a shop under two aliases. -/
def twoDocuments : Documents := .ofList [("a", "x"), ("b", "y")]

/-- The same documents with blanks around them. -/
def spacedDocuments : Documents := .ofList [("a", " x"), ("b", "y\n")]

/-- A plan of the documents that is applied, and a plan of one of them that is not. -/
def keptCalls : List (Call Stage) :=
  [.plan .contentHash .epoch "shop" twoDocuments, .apply .contentHash "shop" [] (some 1),
    .plan .contentHash .epoch "shop" oneDocument]

/-- What the first plan answers. -/
def keptProposal : Proposal :=
  let migrations := contentMigrations .epoch "shop" .empty twoDocuments
  ⟨migrations, !migrations.isEmpty, contentSummary migrations, 1⟩

/-- The documents that were applied stand, also under the alias that the last plan left out, and
with other blanks around them they have no changes. -/
theorem applied_documents_stand_kept :
    let st := (Call.runAll ⟨emptyVault, .emptyMemory, {}⟩ keptCalls).1
    (Call.runAll ⟨emptyVault, .emptyMemory, ({} : Stage)⟩ keptCalls).2 =
        [.planned "shop" twoDocuments (.ok keptProposal),
          .applied "shop" (some keptProposal.token) (.ok ()),
          .planned "shop" oneDocument (.ok ⟨[], false, contentSummary [], 2⟩)] ∧
      st.currentState "shop" "b" = .ok "y" ∧
      ∃ next, (st.planWith .contentHash .epoch "shop" spacedDocuments).2 = .ok next ∧
        next.hasChanges = false := by
  intro st
  have hhistory : (Call.runAll ⟨emptyVault, .emptyMemory, ({} : Stage)⟩ keptCalls).2 =
      [.planned "shop" twoDocuments (.ok keptProposal),
        .applied "shop" (some keptProposal.token) (.ok ()),
        .planned "shop" oneDocument (.ok ⟨[], false, contentSummary [], 2⟩)] := rfl
  have hcontent : ∀ call ∈ keptCalls, call.ByDocuments "shop" := by
    simp [keptCalls, Call.ByDocuments]
  have hkept : ∀ call ∈ keptCalls, call.KeptBy .emptyMemory := by
    simp [keptCalls, Call.KeptBy, Ledger.Keeps, Ledger.emptyMemory]
  obtain ⟨token, refused, -, hmem⟩ | ⟨hstate, hplans⟩ :=
    @applied_documents_stand Stage _ (.inl rfl) emptyVault {} keptCalls hkept "shop" hcontent
      [.planned "shop" twoDocuments (.ok keptProposal)]
      [.planned "shop" oneDocument (.ok ⟨[], false, contentSummary [], 2⟩)]
      twoDocuments keptProposal hhistory List.mem_cons_self (by simp)
  · simp at hmem
  · obtain ⟨next, hnext, -, -, hsame⟩ := hplans .epoch spacedDocuments rfl
    refine ⟨hhistory, hstate "b", next, hnext, (hsame fun name => ?_).1⟩
    simp only [spacedDocuments, twoDocuments, NameMap.get?_ofList]
    by_cases ha : name = "a"
    · subst ha
      decide
    · by_cases hb : name = "b"
      · subst hb
        decide
      · simp [Ne.symm ha, Ne.symm hb]

end Kept

end ProjectHub.Plan
