import ProjectHub.Proofs.Plan.Happening

/-!
# Tokens

A token is good for one apply: that of the last plan of its project, until it was
applied. After any run that began with an empty ledger, the history alone says
which token that is and which documents it stands for.
-/

namespace ProjectHub.Plan

variable {W : Type}

namespace Event

/-- The token and the documents of a plan that a project was given. -/
def planOf? (project : String) : Event → Option (Nat × Documents)
  | planned other documents (.ok proposal) =>
    if other = project then some (proposal.token, documents) else none
  | _ => none

/-- The token of a plan of a project that was applied. -/
def appliedOf? (project : String) : Event → Option Nat
  | applied other (some token) (.ok ()) => if other = project then some token else none
  | _ => none

end Event

/-- The token and the documents of the last plan of a project. -/
def lastPlan (project : String) (history : List Event) : Option (Nat × Documents) :=
  history.reverse.findSome? (Event.planOf? project)

/-- The tokens of a project that were applied, in their order. -/
def appliedTokens (project : String) (history : List Event) : List Nat :=
  history.filterMap (Event.appliedOf? project)

/-- The last plan of a project, unless it was applied. -/
def onOffer (project : String) (history : List Event) : Option (Nat × Documents) :=
  (lastPlan project history).filter fun plan => plan.1 ∉ appliedTokens project history

section History

variable {project : String} {history : List Event} {event : Event}

@[simp] theorem lastPlan_append :
    lastPlan project (history ++ [event]) =
      (event.planOf? project).or (lastPlan project history) := by
  simp only [lastPlan, List.reverse_append, List.reverse_singleton, List.singleton_append,
    List.findSome?_cons]
  cases event.planOf? project <;> rfl

@[simp] theorem appliedTokens_append :
    appliedTokens project (history ++ [event]) =
      appliedTokens project history ++ (event.appliedOf? project).toList := by
  rw [appliedTokens, List.filterMap_append]
  cases h : event.appliedOf? project <;> simp [appliedTokens, h]

theorem onOffer_eq_some_iff {token : Nat} {documents : Documents} :
    onOffer project history = some (token, documents) ↔
      lastPlan project history = some (token, documents) ∧
        token ∉ appliedTokens project history := by
  rw [onOffer, Option.filter_eq_some_iff, decide_eq_true_iff]

end History

/-- A history that tells the account of a project. -/
structure Tells (project : String) (history : List Event) (a : Account) : Prop where
  /-- What is on offer is on record. -/
  onRecord : a.onRecord.map (fun plan => (plan.generation, plan.documents)) =
    onOffer project history
  /-- The last plan has the last token. -/
  last : ∀ plan ∈ lastPlan project history, plan.1 = a.generation
  /-- Only tokens that were given were applied. -/
  given : ∀ token ∈ appliedTokens project history, token ≤ a.generation
  /-- No token was applied twice. -/
  once : (appliedTokens project history).Nodup

namespace Tells

theorem empty (project : String) : Tells project [] {} where
  onRecord := rfl
  last _ h := nomatch h
  given _ h := nomatch h
  once := .nil

variable {project : String} {history : List Event} {a : Account} (h : Tells project history a)
include h

/-- An event that gives the project no token and applies none tells nothing new. -/
theorem silent {event : Event} (hplan : event.planOf? project = none)
    (happlied : event.appliedOf? project = none) : Tells project (history ++ [event]) a := by
  have hlast : lastPlan project (history ++ [event]) = lastPlan project history := by
    rw [lastPlan_append, hplan, Option.none_or]
  have htokens : appliedTokens project (history ++ [event]) = appliedTokens project history := by
    rw [appliedTokens_append, happlied, Option.toList_none, List.append_nil]
  obtain ⟨honRecord, hlastToken, hgiven, honce⟩ := h
  refine ⟨?_, ?_, ?_, ?_⟩
  · rw [honRecord, onOffer, onOffer, hlast, htokens]
  · rwa [hlast]
  · rwa [htokens]
  · rwa [htokens]

/-- A history tells nothing of applied documents. -/
theorem of_same {b : Account} (hgeneration : b.generation = a.generation)
    (hplanned : b.planned = a.planned) : Tells project history b := by
  obtain ⟨honRecord, hlastToken, hgiven, honce⟩ := h
  refine ⟨?_, ?_, ?_, honce⟩
  · rw [Account.onRecord, hplanned, hgeneration]
    exact honRecord
  · rwa [hgeneration]
  · rwa [hgeneration]

/-- A new plan is on offer under a token that was never given. -/
theorem planned (documents : Documents) (now : Instant) {proposal : Proposal}
    (htoken : proposal.token = a.generation + 1) :
    Tells project (history ++ [.planned project documents (.ok proposal)])
      (a.plan documents now) := by
  have hlast : lastPlan project (history ++ [.planned project documents (.ok proposal)]) =
      some (a.generation + 1, documents) := by
    rw [lastPlan_append, Event.planOf?, if_pos rfl, htoken, Option.some_or]
  have htokens : appliedTokens project (history ++ [.planned project documents (.ok proposal)]) =
      appliedTokens project history := by
    rw [appliedTokens_append]
    exact List.append_nil _
  have hfresh : a.generation + 1 ∉ appliedTokens project history := by
    intro hmem
    have hle := h.given _ hmem
    omega
  refine ⟨?_, ?_, ?_, ?_⟩
  · refine (onOffer_eq_some_iff.mpr ⟨hlast, ?_⟩).symm
    rwa [htokens]
  · rw [hlast]
    intro plan hplan
    cases hplan
    rfl
  · rw [htokens]
    exact fun token hmem => Nat.le_succ_of_le (h.given token hmem)
  · rw [htokens]
    exact h.once

/-- An applied plan is no longer on offer. -/
theorem applied {plan : Planned} (hplan : a.onRecord = some plan) {b : Account}
    (hgeneration : b.generation = a.generation) (hplanned : b.planned = none) :
    Tells project (history ++ [.applied project (some plan.generation) (.ok ())]) b := by
  have hoffer := h.onRecord
  rw [hplan, Option.map_some] at hoffer
  obtain ⟨hlast, hfresh⟩ := onOffer_eq_some_iff.mp hoffer.symm
  have hlast' : lastPlan project
      (history ++ [.applied project (some plan.generation) (.ok ())]) =
        some (plan.generation, plan.documents) := by
    rw [lastPlan_append, hlast]
    rfl
  have htokens : appliedTokens project
      (history ++ [.applied project (some plan.generation) (.ok ())]) =
        appliedTokens project history ++ [plan.generation] := by
    rw [appliedTokens_append, Event.appliedOf?, if_pos rfl]
    rfl
  have hgenerationPlan : plan.generation = a.generation := h.last _ hlast
  refine ⟨?_, ?_, ?_, ?_⟩
  · rw [onOffer, hlast', htokens, Account.onRecord, hplanned, Option.filter_some_neg]
    · rfl
    · simp
  · rw [hlast', hgeneration]
    intro last hmem
    cases hmem
    exact hgenerationPlan
  · rw [htokens, hgeneration]
    intro token hmem
    rcases List.mem_append.mp hmem with hmem | hmem
    · exact h.given token hmem
    · rw [List.mem_singleton.mp hmem, hgenerationPlan]
  · rw [htokens]
    refine List.nodup_append.mpr ⟨h.once, List.nodup_singleton _, ?_⟩
    intro token hmem other hother
    rw [List.mem_singleton.mp hother]
    rintro rfl
    exact hfresh hmem

end Tells

/-- A state whose ledger is told by a history. -/
def Told (st : State W) (history : List Event) : Prop :=
  ∃ accounts, st.ledger.Holds accounts ∧ ∀ project, Tells project history (accounts project)

namespace Told

variable {st : State W} {history : List Event} (h : Told st history)
include h

theorem silent {event : Event} (hplan : ∀ project, event.planOf? project = none)
    (happlied : ∀ project, event.appliedOf? project = none) : Told st (history ++ [event]) := by
  obtain ⟨accounts, hholds, htells⟩ := h
  exact ⟨accounts, hholds, fun project => (htells project).silent (hplan project) (happlied project)⟩

theorem plan (strategy : Strategy W) {now : Instant} (hnow : st.ledger.Keeps now)
    (project : String) (documents : Documents) :
    Told (st.planWith strategy now project documents).1
      (history ++ [.planned project documents (st.planWith strategy now project documents).2]) := by
  obtain ⟨accounts, hholds, htells⟩ := id h
  rcases State.planWith_cases hholds strategy project hnow documents with
    ⟨error, hrefused⟩ | ⟨migrations, summary, -, hplanned⟩
  · rw [hrefused]
    exact silent h (fun _ => rfl) (fun _ => rfl)
  · rw [hplanned]
    refine ⟨_, (Ledger.savePlan_of_holds hholds project documents hnow).2, fun other => ?_⟩
    by_cases hother : other = project
    · subst hother
      rw [Function.update_self]
      exact (htells other).planned documents now rfl
    · rw [Function.update_of_ne hother]
      refine (htells other).silent ?_ rfl
      rw [Event.planOf?, if_neg (Ne.symm hother)]

theorem apply (strategy : Strategy W) (project : String) (migrations : List Migration)
    (token : Option Nat) :
    Told (st.applyWith strategy project migrations token).1
      (history ++ [.applied project token (st.applyWith strategy project migrations token).2]) := by
  obtain ⟨accounts, hholds, htells⟩ := id h
  cases hproject : checkProject project with
  | error error =>
      simp only [State.applyWith, hproject]
      exact silent h (fun _ => rfl) (fun _ => by cases token <;> rfl)
  | ok u =>
      cases hplan : (accounts project).onRecord with
      | none =>
          rw [State.applyWith_of_unplanned hholds strategy hproject hplan]
          refine silent h (fun _ => rfl) (fun _ => ?_)
          cases token with
          | none => rfl
          | some token => rfl
      | some plan =>
          by_cases htoken : token = some plan.generation
          · subst htoken
            rw [State.applyWith_of_planned hholds strategy hplan hproject]
            obtain ⟨a, hfinish, hgeneration, hplanned⟩ :=
              State.holds_finish hholds strategy hplan
            refine ⟨_, hfinish, fun other => ?_⟩
            by_cases hother : other = project
            · subst hother
              rw [Function.update_self]
              generalize (st.finish strategy other plan.documents plan.generation).2 = answer at *
              cases answer with
              | ok u => exact (htells other).applied hplan hgeneration hplanned
              | error error =>
                  exact ((htells other).of_same hgeneration hplanned).silent rfl rfl
            · rw [Function.update_of_ne hother]
              refine (htells other).silent rfl ?_
              generalize (st.finish strategy project plan.documents plan.generation).2 = answer
              cases answer with
              | ok u => rw [Event.appliedOf?, if_neg (Ne.symm hother)]
              | error error => rfl
          · rw [State.applyWith_of_stale hholds strategy hplan hproject htoken]
            exact silent h (fun _ => rfl) (fun _ => by cases token <;> rfl)

theorem run (call : Call W) (hkept : call.KeptBy st.ledger) :
    Told (call.run st).1 (history ++ [(call.run st).2]) := by
  cases call with
  | plan strategy now project documents => exact h.plan strategy hkept project documents
  | apply strategy project migrations token => exact h.apply strategy project migrations token

/-- A run continues the history that tells its state. -/
theorem runAll (calls : List (Call W)) (hkept : ∀ call ∈ calls, call.KeptBy st.ledger) :
    Told (Call.runAll st calls).1 (history ++ (Call.runAll st calls).2) := by
  induction calls generalizing st history with
  | nil =>
      rw [Call.runAll, List.append_nil]
      exact h
  | cons call calls ih =>
      have hcall := h.run call (hkept call (List.mem_cons_self ..))
      have hrest := ih hcall fun other hother =>
        (Call.keptBy_run st call other).mpr (hkept other (List.mem_cons_of_mem _ hother))
      rw [List.append_assoc] at hrest
      exact hrest

end Told

/-- The errors that refuse a token, or the want of one. -/
def Error.RefusesToken : Error → Prop
  | nothingPlanned _ => True
  | stalePlan _ _ _ => True
  | _ => False

/-- A database does not answer with a refusal of a token: it knows of none. -/
def Strategy.NeverRefuses : Strategy W → Prop
  | native client =>
    (∀ world error, client.inspect world = .error error → ¬ error.RefusesToken) ∧
      ∀ statements world error, client.execute statements world = .error error →
        ¬ error.RefusesToken
  | contentHash => True

theorem neverRefuses_clientOn (connection : Sqlite.Connection) :
    (Strategy.native (clientOn connection)).NeverRefuses := by
  refine ⟨fun host error h => ?_, fun statements host error h => ?_⟩
  · simp only [clientOn] at h
    split at h <;> cases h
    exact id
  · simp only [clientOn] at h
    split at h <;> cases h
    exact id

theorem neverRefuses_stageClient : (Strategy.native stageClient).NeverRefuses := by
  refine ⟨fun stage error h => ?_, fun statements stage error h => ?_⟩
  · simp only [stageClient] at h
    split at h <;> cases h
    exact id
  · simp only [stageClient] at h
    split at h <;> cases h
    exact id

/-- Carrying out a plan fails only with what its documents or the database fail with. -/
theorem State.finish_neverRefuses {st : State W} {strategy : Strategy W}
    (hstrategy : strategy.NeverRefuses) {project : String} {documents : Documents} {token : Nat}
    {error : Error} (h : (st.finish strategy project documents token).2 = .error error) :
    ¬ error.RefusesToken := by
  unfold finish at h
  cases hcarry : st.carryOut strategy project documents with
  | ok next =>
      simp only [hcarry] at h
      split at h <;> cases h
      exact id
  | error failure =>
      simp only [hcarry] at h
      cases h
      cases strategy with
      | contentHash => cases hcarry
      | native client =>
          rw [carryOut_native] at hcarry
          split at hcarry
          · rename_i hchanges
            cases hcarry
            simp only [liveChanges, bind, Except.bind, pure, Except.pure] at hchanges
            split at hchanges
            · rename_i hparse
              cases hchanges
              unfold readRealm at hparse
              cases hrealm : Realm.parse documents.combine with
              | ok realm => simp [hrealm, Except.mapError] at hparse
              | error fault =>
                  simp only [hrealm, Except.mapError, Except.error.injEq] at hparse
                  rw [← hparse]
                  exact id
            · split at hchanges
              · rename_i hinspect
                cases hchanges
                exact hstrategy.1 _ _ hinspect
              · cases hchanges
          · split at hcarry
            · cases hcarry
            · exact hstrategy.2 _ _ _ (map_eq_error_iff.mp hcarry)

theorem checkProject_eq_ok {project : String} (h : Text.isBlankText project = false) :
    checkProject project = .ok () := by
  rw [checkProject, h]
  rfl

/-- A plan that is carried out was on record before and is not afterwards, so finishing it is
never without effect. -/
theorem State.finish_ne {st : State W} {accounts : Accounts} (h : st.ledger.Holds accounts)
    (strategy : Strategy W) {project : String} {plan : Planned}
    (hplan : (accounts project).onRecord = some plan) :
    st.finish strategy project plan.documents plan.generation ≠ (st, .ok ()) := by
  intro heq
  obtain ⟨a, hfinish, -, hplanned⟩ := holds_finish h strategy hplan
  rw [heq] at hfinish hplanned
  have hbefore := Ledger.getPlan_of_holds h project
  have hafter := Ledger.getPlan_of_holds hfinish project
  rw [hbefore, hplan, Function.update_self, Account.onRecord, hplanned] at hafter
  cases hafter

section Check

variable {st : State W} {history : List Event} (h : Told st history) {project : String}
  (hproject : Text.isBlankText project = false)
include h hproject

/-- A plan on offer is carried out by its token, with an effect, and by no other token. -/
theorem Told.applyWith_onOffer {good : Nat} {documents : Documents}
    (hoffer : onOffer project history = some (good, documents)) (strategy : Strategy W)
    (migrations : List Migration) (token : Option Nat) :
    st.applyWith strategy project migrations token =
        (if token = some good then st.finish strategy project documents good
          else (st, .error (.stalePlan project good token))) ∧
      st.finish strategy project documents good ≠ (st, .ok ()) := by
  obtain ⟨accounts, hholds, htells⟩ := h
  obtain ⟨plan, hplan, heq⟩ := Option.map_eq_some_iff.mp ((htells project).onRecord.trans hoffer)
  cases heq
  have hcheck := checkProject_eq_ok hproject
  refine ⟨?_, State.finish_ne hholds strategy hplan⟩
  by_cases htoken : token = some plan.generation
  · rw [if_pos htoken, htoken]
    exact State.applyWith_of_planned hholds strategy hplan hcheck migrations
  · rw [if_neg htoken]
    exact State.applyWith_of_stale hholds strategy hplan hcheck htoken migrations

/-- Without a plan on offer only an apply of nothing succeeds, and nothing changes. -/
theorem Told.applyWith_nothing (hoffer : onOffer project history = none) (strategy : Strategy W)
    (migrations : List Migration) (token : Option Nat) :
    st.applyWith strategy project migrations token =
      (st, if token = none ∧ migrations = [] then .ok () else .error (.nothingPlanned project)) := by
  obtain ⟨accounts, hholds, htells⟩ := h
  have hplan := Option.map_eq_none_iff.mp ((htells project).onRecord.trans hoffer)
  rw [State.applyWith_of_unplanned hholds strategy (checkProject_eq_ok hproject) hplan]
  simp [Option.isNone_iff_eq_none]

end Check

/-- After any run that began with an empty ledger, an apply passes the check of its token
exactly when the token is that of the last plan of the project and was not applied yet. What is
then carried out are the documents of that plan, whatever migrations come with the token. So no
token is applied twice, and none after another plan. -/
theorem applyWith_after_runAll {start : Ledger}
    (hstart : start = .emptyMemory ∨ start = .emptyDatabase) (vault : Vault) (world : W)
    {calls : List (Call W)} (hkept : ∀ call ∈ calls, call.KeptBy start) {project : String}
    (hproject : Text.isBlankText project = false) :
    let st := (Call.runAll ⟨vault, start, world⟩ calls).1
    let history := (Call.runAll ⟨vault, start, world⟩ calls).2
    (∀ (strategy : Strategy W) (migrations : List Migration) (token : Option Nat),
      strategy.NeverRefuses →
        ((∀ error, (st.applyWith strategy project migrations token).2 = .error error →
            ¬ error.RefusesToken) ∧
          st.applyWith strategy project migrations token ≠ (st, .ok ()) ↔
            ∃ good documents, token = some good ∧
              lastPlan project history = some (good, documents) ∧
                good ∉ appliedTokens project history)) ∧
    (∀ good documents, lastPlan project history = some (good, documents) →
      good ∉ appliedTokens project history →
        ∀ (strategy : Strategy W) (migrations : List Migration) (token : Option Nat),
          st.applyWith strategy project migrations token =
            if token = some good then st.finish strategy project documents good
            else (st, .error (.stalePlan project good token))) ∧
    ((∀ good documents, lastPlan project history = some (good, documents) →
      good ∈ appliedTokens project history) →
        ∀ (strategy : Strategy W) (migrations : List Migration) (token : Option Nat),
          st.applyWith strategy project migrations token =
            (st, if token = none ∧ migrations = [] then .ok ()
              else .error (.nothingPlanned project))) ∧
    (∀ (strategy : Strategy W) (migrations : List Migration) (token : Nat),
      (st.applyWith strategy project migrations (some token)).2 = .ok () →
        (∃ documents, lastPlan project history = some (token, documents)) ∧
          token ∉ appliedTokens project history) ∧
    (appliedTokens project history).Nodup := by
  intro st history
  have hempty : Told (⟨vault, start, world⟩ : State W) [] := by
    rcases hstart with rfl | rfl
    · exact ⟨_, Ledger.holds_emptyMemory, Tells.empty⟩
    · exact ⟨_, Ledger.holds_emptyDatabase, Tells.empty⟩
  have htold : Told st history := hempty.runAll calls hkept
  have honce : (appliedTokens project history).Nodup := by
    obtain ⟨accounts, -, htells⟩ := id htold
    exact (htells project).once
  refine ⟨?_, ?_, ?_, ?_, honce⟩
  · intro strategy migrations token hstrategy
    constructor
    · rintro ⟨hanswer, heffect⟩
      cases hoffer : onOffer project history with
      | none =>
          rw [htold.applyWith_nothing hproject hoffer] at hanswer heffect
          split at heffect
          · exact absurd rfl heffect
          · rename_i hsome
            rw [if_neg hsome] at hanswer
            exact absurd trivial (hanswer _ rfl)
      | some plan =>
          obtain ⟨good, documents⟩ := plan
          rw [(htold.applyWith_onOffer hproject hoffer strategy migrations token).1] at hanswer
          by_cases htoken : token = some good
          · exact ⟨good, documents, htoken, onOffer_eq_some_iff.mp hoffer⟩
          · rw [if_neg htoken] at hanswer
            exact absurd trivial (hanswer _ rfl)
    · rintro ⟨good, documents, rfl, hlast, hfresh⟩
      have hoffer := onOffer_eq_some_iff.mpr ⟨hlast, hfresh⟩
      obtain ⟨happly, heffect⟩ :=
        htold.applyWith_onOffer hproject hoffer strategy migrations (some good)
      rw [happly, if_pos rfl]
      exact ⟨fun error herror => State.finish_neverRefuses hstrategy herror, heffect⟩
  · intro good documents hlast hfresh strategy migrations token
    have hoffer := onOffer_eq_some_iff.mpr ⟨hlast, hfresh⟩
    exact (htold.applyWith_onOffer hproject hoffer strategy migrations token).1
  · intro happlied
    refine htold.applyWith_nothing hproject (Option.eq_none_iff_forall_ne_some.mpr ?_)
    rintro ⟨good, documents⟩ hoffer
    obtain ⟨hlast, hfresh⟩ := onOffer_eq_some_iff.mp hoffer
    exact hfresh (happlied good documents hlast)
  · intro strategy migrations token hok
    cases hoffer : onOffer project history with
    | none =>
        rw [htold.applyWith_nothing hproject hoffer, if_neg (fun h => nomatch h.1)] at hok
        cases hok
    | some plan =>
        obtain ⟨good, documents⟩ := plan
        rw [(htold.applyWith_onOffer hproject hoffer strategy migrations _).1] at hok
        by_cases htoken : some token = some good
        · cases htoken
          obtain ⟨hlast, hfresh⟩ := onOffer_eq_some_iff.mp hoffer
          exact ⟨⟨documents, hlast⟩, hfresh⟩
        · rw [if_neg htoken] at hok
          cases hok

/-- A vault without secrets. -/
def emptyVault : Vault := ⟨.emptyMemory, zeroKey⟩

/-- The documents of a shop. -/
def shopDocuments : Documents :=
  .ofList [("main", "table orders \x7b column id \x7b type = integer \x7d \x7d")]

/-- Two plans of a shop, one after the other. -/
def shopPlans : List (Call Stage) :=
  [.plan .contentHash .epoch "shop" shopDocuments, .plan .contentHash .epoch "shop" shopDocuments]

theorem applyWith_after_runAll_shop :
    (∀ call ∈ shopPlans, call.KeptBy .emptyDatabase) ∧ Text.isBlankText "shop" = false ∧
      (Call.runAll ⟨emptyVault, .emptyDatabase, {}⟩ shopPlans).1.applyWith
          (.native stageClient) "shop" [] (some 1) =
        ((Call.runAll ⟨emptyVault, .emptyDatabase, {}⟩ shopPlans).1,
          .error (.stalePlan "shop" 2 (some 1))) ∧
      (Call.runAll ⟨emptyVault, .emptyDatabase, {}⟩ shopPlans).1.applyWith
          (.native stageClient) "shop" [] (some 2) =
        (Call.runAll ⟨emptyVault, .emptyDatabase, {}⟩ shopPlans).1.finish
          (.native stageClient) "shop" shopDocuments 2 := by
  have hkept : ∀ call ∈ shopPlans, call.KeptBy .emptyDatabase := by
    have hepoch : Instant.epoch.Showable := by decide
    intro call hcall
    rcases List.mem_cons.mp hcall with rfl | hcall
    · exact hepoch
    · rw [List.mem_singleton.mp hcall]
      exact hepoch
  have hproject : Text.isBlankText "shop" = false := by decide
  refine ⟨hkept, hproject, ?_, ?_⟩
  · have h := applyWith_after_runAll (.inr rfl) emptyVault ({} : Stage) hkept hproject
    exact h.2.1 2 shopDocuments rfl (by decide) (.native stageClient) [] (some 1)
  · have h := applyWith_after_runAll (.inr rfl) emptyVault ({} : Stage) hkept hproject
    exact h.2.1 2 shopDocuments rfl (by decide) (.native stageClient) [] (some 2)

end ProjectHub.Plan
