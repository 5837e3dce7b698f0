import ProjectHub.Proofs.Run
import ProjectHub.Proofs.Text.Utf8
import ProjectHub.Proofs.Time.Timestamp
import ProjectHub.Proofs.Vault.Sealing
import ProjectHub.Vault.Basic

/-!
# What a vault holds

Over either kind of store a vault is a map from projects and keys to values: a
value is held from when it is set until it is set anew or removed, under exactly
its project and key. Sealing stays out of sight, whatever the nonces.
-/

namespace ProjectHub.Vault

namespace Store

/-- Whether a store can keep a time: rows hold timestamps with four digits for the year. -/
def Keeps (store : Store) (now : Instant) : Prop :=
  match store with
  | memory _ => True
  | database _ => now.Showable

/-- The sealed text and the timestamp under a project and key. -/
def stored? (store : Store) (project key : String) : Option (String × String) :=
  match store with
  | memory records =>
    (records.getAt? project key).map fun record => (record.sealed, record.updatedAt.toRfc3339)
  | database rows => (rows.getAt? project key).map fun row => (row.sealed, row.updatedAt)

theorem stored?_put (store : Store) (record : Record) (project key : String) :
    (store.put record).stored? project key =
      if record.project = project ∧ record.key = key then
        some (record.sealed, record.updatedAt.toRfc3339)
      else store.stored? project key := by
  cases store <;> simp only [put, stored?, NameMap.getAt?_insertAt] <;> split <;> rfl

theorem stored?_erase (store : Store) (project key p k : String) :
    (store.erase project key).stored? p k =
      if project = p ∧ key = k then none else store.stored? p k := by
  cases store <;> simp only [erase, stored?, NameMap.getAt?_eraseAt] <;> split <;> rfl

theorem get_of_stored?_eq_none {store : Store} {project key : String}
    (h : store.stored? project key = none) : store.get project key = .ok none := by
  cases store with
  | memory records => rw [get, Option.map_eq_none_iff.mp h]
  | database rows => rw [get, Option.map_eq_none_iff.mp h]

theorem get_of_stored?_eq_some {store : Store} {project key sealed : String} {now : Instant}
    (h : store.stored? project key = some (sealed, now.toRfc3339)) (hnow : store.Keeps now) :
    ∃ record, store.get project key = .ok (some record) ∧ record.sealed = sealed := by
  cases store with
  | memory records =>
      obtain ⟨record, hrecord, heq⟩ := Option.map_eq_some_iff.mp h
      exact ⟨record, congrArg Except.ok hrecord, congrArg Prod.fst heq⟩
  | database rows =>
      obtain ⟨row, hrow, heq⟩ := Option.map_eq_some_iff.mp h
      have htime : row.updatedAt = now.toRfc3339 := congrArg Prod.snd heq
      refine ⟨⟨project, key, row.sealed, now⟩, ?_, congrArg Prod.fst heq⟩
      have hread : Storage.readTimestamp "updated_at" now.toRfc3339 = .ok now := by
        rw [Storage.readTimestamp, Instant.Showable.parse_toRfc3339 hnow]
        rfl
      simp only [get, hrow, htime, hread]
      rfl

theorem get_ne_ok_none_of_stored? {store : Store} {project key : String} {entry : String × String}
    (h : store.stored? project key = some entry) : store.get project key ≠ .ok none := by
  cases store with
  | memory records =>
      obtain ⟨record, hrecord, -⟩ := Option.map_eq_some_iff.mp h
      rw [get, hrecord]
      intro heq
      cases heq
  | database rows =>
      obtain ⟨row, hrow, -⟩ := Option.map_eq_some_iff.mp h
      simp only [get, hrow]
      cases Storage.readTimestamp "updated_at" row.updatedAt <;> intro heq <;> cases heq

theorem mem_keys_iff {store : Store} {project key : String} :
    key ∈ store.keys project ↔ (store.stored? project key).isSome := by
  cases store <;> rw [keys, stored?, Option.isSome_map, NameMap.mem_keys_iff] <;> rfl

theorem keys_pairwise (store : Store) (project : String) :
    (store.keys project).Pairwise (· < ·) := by
  cases store <;> exact NameMap.keys_pairwise _

theorem keys_nodup (store : Store) (project : String) : (store.keys project).Nodup := by
  cases store <;> exact NameMap.keys_nodup _

end Store

/-- The values that are held, each with the time when it was set, by project and key. -/
abbrev Secrets := String → String → Option (String × Instant)

/-- Whether an entry of a store is a value, sealed under some nonce, with the time it was set. -/
def Seals (masterKey : SealKey) (entry : String × String) (value : String × Instant) : Prop :=
  (∃ nonce, entry.1 = sealText masterKey nonce (Text.toUtf8 value.1)) ∧
    entry.2 = value.2.toRfc3339

/-- A vault that holds secrets: their entries, and no others, are in its store. -/
def Holds (v : Vault) (secrets : Secrets) : Prop :=
  ∀ project key, Option.Rel (Seals v.masterKey) (v.store.stored? project key) (secrets project key)

theorem checkNames_eq_ok {project key : String} (hproject : project ≠ "") (hkey : key ≠ "") :
    checkNames project key = .ok () := by
  simp [checkNames, hproject, hkey]

section Operations

variable {v : Vault} {secrets : Secrets} (h : v.Holds secrets) {project key : String}
include h

theorem stored?_eq_none_iff_of_holds (project key : String) :
    v.store.stored? project key = none ↔ secrets project key = none := by
  have hrel := h project key
  generalize v.store.stored? project key = entry at hrel
  generalize secrets project key = secret at hrel
  cases hrel <;> simp

theorem get_of_holds (hproject : project ≠ "") (hkey : key ≠ "") {value : String} {now : Instant}
    (hvalue : secrets project key = some (value, now)) (hnow : v.store.Keeps now) :
    v.get project key = .ok ⟨value⟩ := by
  obtain ⟨nonce, hentry⟩ : ∃ nonce, v.store.stored? project key =
      some (sealText v.masterKey nonce (Text.toUtf8 value), now.toRfc3339) := by
    have hrel := h project key
    rw [hvalue] at hrel
    generalize v.store.stored? project key = entry at hrel
    cases hrel with
    | some hseals =>
        obtain ⟨⟨nonce, hsealed⟩, htime⟩ := hseals
        exact ⟨nonce, congrArg some (Prod.ext hsealed htime)⟩
  obtain ⟨record, hrecord, hsealed⟩ := Store.get_of_stored?_eq_some hentry hnow
  have hopen : openText v.masterKey record.sealed = .ok (Text.toUtf8 value) := by
    rw [hsealed, openText_sealText]
  simp only [get, checkNames_eq_ok hproject hkey, hrecord, hopen, Text.ofUtf8?_toUtf8, bind,
    Except.bind, Except.mapError, pure, Except.pure]

theorem get_eq_notFound_iff (hproject : project ≠ "") (hkey : key ≠ "") :
    v.get project key = .error (.notFound project key) ↔ secrets project key = none := by
  rw [← stored?_eq_none_iff_of_holds h]
  simp only [get, checkNames_eq_ok hproject hkey, bind, Except.bind]
  constructor
  · intro hget
    cases hentry : v.store.stored? project key with
    | none => rfl
    | some entry =>
        -- an entry that is there can fail to be read, but not as one that is not there
        have hsome := Store.get_ne_ok_none_of_stored? hentry
        cases hstore : v.store.get project key with
        | error error => simp [hstore, Except.mapError] at hget
        | ok found =>
            cases found with
            | none => exact absurd hstore hsome
            | some record =>
                simp only [hstore, Except.mapError] at hget
                obtain ⟨plain, hopen⟩ | ⟨reason, hopen⟩ := openText_cases v.masterKey record.sealed
                · simp only [hopen] at hget
                  split at hget <;> cases hget
                · simp only [hopen] at hget
                  cases hget
  · intro hentry
    rw [Store.get_of_stored?_eq_none hentry]
    rfl

theorem list_of_holds (hproject : project ≠ "") :
    ∃ keys, v.list project = .ok keys ∧ keys.Pairwise (· < ·) ∧ keys.Nodup ∧
      ∀ key, key ∈ keys ↔ (secrets project key).isSome := by
  refine ⟨v.store.keys project, by simp [list, hproject], v.store.keys_pairwise project,
    v.store.keys_nodup project, fun key => ?_⟩
  rw [Store.mem_keys_iff, Option.isSome_iff_ne_none, Option.isSome_iff_ne_none, ne_eq, ne_eq,
    stored?_eq_none_iff_of_holds h]

theorem holds_put (project key : String) (nonce : Nonce) (now : Instant) (value : String) :
    Holds ⟨v.store.put ⟨project, key, sealText v.masterKey nonce (Text.toUtf8 value), now⟩,
        v.masterKey⟩
      fun p k => if project = p ∧ key = k then some (value, now) else secrets p k := by
  intro p k
  simp only [Store.stored?_put]
  split
  · exact .some ⟨⟨nonce, rfl⟩, rfl⟩
  · exact h p k

theorem holds_erase (project key : String) :
    Holds ⟨v.store.erase project key, v.masterKey⟩
      fun p k => if project = p ∧ key = k then none else secrets p k := by
  intro p k
  simp only [Store.stored?_erase]
  split
  · exact .none
  · exact h p k

end Operations

/-- A value that the vault gives is what its text for an edge opens to there. Where the vault
gives none, there is no such text, for the same reason. -/
theorem reencrypt_eq (v : Vault) (nonce : Nonce) (project key : String) (edgeKey : SealKey) :
    v.reencrypt nonce project key edgeKey.bytes =
      (v.get project key).map fun value => sealText edgeKey nonce (Text.toUtf8 value.expose) := by
  simp only [reencrypt, SealKey.ofBytes, dif_pos edgeKey.length_bytes, bind, Except.bind]
  cases v.get project key <;> rfl

/-- A call of a vault, with the nonce and the time that it draws. -/
inductive Call where
  | set (nonce : Nonce) (now : Instant) (project key value : String)
  | delete (project key : String)
  | get (project key : String)
  | list (project : String)
  | reencrypt (nonce : Nonce) (project key : String) (edgeKey : List UInt8)

/-- What a call was and what it answered. -/
inductive Event where
  | set (now : Instant) (project key value : String) (answer : Except Error Unit)
  | deleted (project key : String) (answer : Except Error Unit)
  | got (project key : String) (answer : Except Error Secret)
  | listed (project : String) (answer : Except Error (List String))
  | reencrypted (project key : String) (edgeKey : List UInt8) (answer : Except Error String)

namespace Event

/-- What an event leaves under a project and key: a value with the time when it was set, or
nothing. Most events leave things as they are. -/
def leaves? (project key : String) : Event → Option (Option (String × Instant))
  | set now p k value (.ok ()) => if p = project ∧ k = key then some (some (value, now)) else none
  | deleted p k (.ok ()) => if p = project ∧ k = key then some none else none
  | _ => none

def error? : Event → Option Error
  | set _ _ _ _ (.error error) | deleted _ _ (.error error) | got _ _ (.error error)
  | listed _ (.error error) | reencrypted _ _ _ (.error error) => some error
  | _ => none

end Event

/-- The value last set under a project and key, if it was not removed since. -/
def held (history : List Event) : Secrets := fun project key =>
  (history.reverse.findSome? (Event.leaves? project key)).join

theorem held_append (history : List Event) (event : Event) (project key : String) :
    held (history ++ [event]) project key =
      (event.leaves? project key).getD (held history project key) := by
  simp only [held, List.reverse_append, List.reverse_cons, List.reverse_nil, List.nil_append,
    List.singleton_append, List.findSome?_cons]
  cases event.leaves? project key <;> rfl

namespace Call

/-- The vault after an operation that may have been refused, and whether it was. -/
def settle (v : Vault) (result : Except Error Vault) : Vault × Except Error Unit :=
  match result with
  | .ok next => (next, .ok ())
  | .error error => (v, .error error)

def run (v : Vault) : Call → Vault × Event
  | set nonce now project key value =>
    let (next, answer) := settle v (v.set nonce now project key value)
    (next, .set now project key value answer)
  | delete project key =>
    let (next, answer) := settle v (v.delete project key)
    (next, .deleted project key answer)
  | get project key => (v, .got project key (v.get project key))
  | list project => (v, .listed project (v.list project))
  | reencrypt nonce project key edgeKey =>
    (v, .reencrypted project key edgeKey (v.reencrypt nonce project key edgeKey))

/-- The vault after calls in their order, and the history they make, oldest first. -/
def runAll (v : Vault) (calls : List Call) : Vault × List Event :=
  ProjectHub.runAll run v calls

/-- Why a call is refused before anything is looked up. -/
def refusal? : Call → Option Error
  | set _ _ project key _ | delete project key | get project key =>
    if project = "" then some .emptyProject else if key = "" then some .emptyKey else none
  | list project => if project = "" then some .emptyProject else none
  | reencrypt _ project key edgeKey =>
    if edgeKey.length ≠ 32 then some (.keyLength edgeKey.length)
    else if project = "" then some .emptyProject
    else if key = "" then some .emptyKey
    else none

theorem checkNames_eq_error {project key : String} {error : Error}
    (h : (if project = "" then some Error.emptyProject
      else if key = "" then some .emptyKey else none) = some error) :
    checkNames project key = .error error := by
  unfold checkNames
  by_cases hproject : project = ""
  · simpa [hproject] using h
  · by_cases hkey : key = "" <;> simp_all

/-- A call that is refused answers why, and nothing changes. -/
theorem run_of_refusal? {v : Vault} {call : Call} {error : Error} (h : call.refusal? = some error) :
    (call.run v).1 = v ∧ (call.run v).2.error? = some error := by
  cases call with
  | set nonce now project key value =>
      simp [run, settle, Vault.set, checkNames_eq_error h, bind, Except.bind, Event.error?]
  | delete project key =>
      simp [run, settle, Vault.delete, checkNames_eq_error h, bind, Except.bind, Event.error?]
  | get project key =>
      simp [run, Vault.get, checkNames_eq_error h, bind, Except.bind, Event.error?]
  | list project =>
      by_cases hproject : project = ""
      · simpa [run, Vault.list, hproject, Event.error?, refusal?] using h
      · simp [refusal?, hproject] at h
  | reencrypt nonce project key edgeKey =>
      simp only [refusal?] at h
      split at h
      · rename_i hlength
        simpa [run, Vault.reencrypt, SealKey.ofBytes, hlength, bind, Except.bind,
          Event.error?] using h
      · rename_i hlength
        simp [run, Vault.reencrypt, Vault.get, SealKey.ofBytes, not_not.mp hlength,
          checkNames_eq_error h, bind, Except.bind, Event.error?]

/-- A call keeps a vault in step with its history. -/
theorem holds_run {v : Vault} {history : List Event} (h : v.Holds (held history)) (call : Call) :
    (call.run v).1.Holds (held (history ++ [(call.run v).2])) := by
  -- a call that only reads, or that is refused, leaves both as they are
  have hsame (event : Event) (hevent : ∀ p k, event.leaves? p k = none) :
      v.Holds (held (history ++ [event])) := by
    intro p k
    rw [held_append, hevent]
    exact h p k
  cases call with
  | get project key => exact hsame _ fun p k => rfl
  | list project => exact hsame _ fun p k => rfl
  | reencrypt nonce project key edgeKey => exact hsame _ fun p k => rfl
  | set nonce now project key value =>
      simp only [run, Vault.set, bind, Except.bind, pure, Except.pure]
      cases checkNames project key with
      | error error => exact hsame _ fun p k => rfl
      | ok u =>
          intro p k
          rw [settle, held_append, Event.leaves?]
          have hput := holds_put h project key nonce now value p k
          split <;> rename_i hnames <;> simpa [hnames] using hput
  | delete project key =>
      simp only [run, Vault.delete, bind, Except.bind, pure, Except.pure]
      cases checkNames project key with
      | error error => exact hsame _ fun p k => rfl
      | ok u =>
          intro p k
          rw [settle, held_append, Event.leaves?]
          have herase := holds_erase h project key p k
          split <;> rename_i hnames <;> simpa [hnames] using herase

theorem holds_runAll {v : Vault} (h : v.Holds (held [])) (calls : List Call) :
    (runAll v calls).1.Holds (held (runAll v calls).2) := by
  have hstep : ∀ past call v history, past ++ [call] <+: calls → Holds v (held history) →
      (call.run v).1.Holds (held (history ++ [(call.run v).2])) :=
    fun _ call _ _ _ hpast => holds_run hpast call
  exact runAll_of_step hstep h

end Call

theorem holds_emptyMemory (masterKey : SealKey) : Holds ⟨.emptyMemory, masterKey⟩ (held []) :=
  fun _ _ => .none

theorem holds_emptyDatabase (masterKey : SealKey) : Holds ⟨.emptyDatabase, masterKey⟩ (held []) :=
  fun _ _ => .none

/-- After any calls a vault answers as the map of the values held: what was set last under exactly
a project and key and not removed since, as long as the store can keep the time of it. It lists
the keys of these values, and hands each to an edge so that it opens there. Calls refused for a
name or for the key of an edge change nothing. -/
theorem answers_after_runAll {start : Store}
    (hstart : start = .emptyMemory ∨ start = .emptyDatabase) (masterKey : SealKey)
    (calls : List Call) :
    let v := (Call.runAll ⟨start, masterKey⟩ calls).1
    let secrets := held (Call.runAll ⟨start, masterKey⟩ calls).2
    (∀ project key, project ≠ "" → key ≠ "" →
      (∀ value now, secrets project key = some (value, now) → v.store.Keeps now →
        v.get project key = .ok ⟨value⟩) ∧
      (v.get project key = .error (.notFound project key) ↔ secrets project key = none) ∧
      (∃ next, v.delete project key = .ok next) ∧
      ∀ nonce now value, ∃ next, v.set nonce now project key value = .ok next) ∧
    (∀ project, project ≠ "" → ∃ keys, v.list project = .ok keys ∧ keys.Pairwise (· < ·) ∧
      keys.Nodup ∧ ∀ key, key ∈ keys ↔ (secrets project key).isSome) ∧
    (∀ nonce project key (edgeKey : SealKey),
      (∀ value, v.get project key = .ok value → ∃ sealed,
        v.reencrypt nonce project key edgeKey.bytes = .ok sealed ∧
          openText edgeKey sealed = .ok (Text.toUtf8 value.expose)) ∧
      (∀ error, v.get project key = .error error →
        v.reencrypt nonce project key edgeKey.bytes = .error error) ∧
      ∀ edgeKey, ((Call.reencrypt nonce project key edgeKey).run v).1 = v) ∧
    ∀ (call : Call) error, call.refusal? = some error →
      (call.run v).1 = v ∧ (call.run v).2.error? = some error := by
  intro v secrets
  have hempty : Holds ⟨start, masterKey⟩ (held []) := by
    rcases hstart with rfl | rfl
    · exact holds_emptyMemory masterKey
    · exact holds_emptyDatabase masterKey
  have h : v.Holds secrets := Call.holds_runAll hempty calls
  refine ⟨fun project key hproject hkey => ⟨?_, ?_, ?_, ?_⟩, fun project => list_of_holds h, ?_,
    fun call error => Call.run_of_refusal?⟩
  · intro value now
    exact get_of_holds h hproject hkey
  · exact get_eq_notFound_iff h hproject hkey
  · exact ⟨_, by rw [delete, checkNames_eq_ok hproject hkey]; rfl⟩
  · intro nonce now value
    exact ⟨_, by rw [set, checkNames_eq_ok hproject hkey]; rfl⟩
  · intro nonce project key edgeKey
    refine ⟨fun value hvalue => ?_, fun error herror => ?_, fun edgeKey => rfl⟩
    · refine ⟨sealText edgeKey nonce (Text.toUtf8 value.expose), ?_, openText_sealText ..⟩
      rw [reencrypt_eq, hvalue]
      rfl
    · rw [reencrypt_eq, herror]
      rfl

/-- Calls on two pairs of names that read the same when they are joined. -/
def similarCalls : List Call :=
  [.set zeroNonce .epoch "a" "bc" "first", .set zeroNonce .epoch "ab" "c" "second",
    .delete "a" "bc", .reencrypt zeroNonce "ab" "c" []]

theorem answers_after_runAll_similar :
    let v := (Call.runAll ⟨.emptyDatabase, zeroKey⟩ similarCalls).1
    v.get "ab" "c" = .ok ⟨"second"⟩ ∧ v.get "a" "bc" = .error (.notFound "a" "bc") := by
  have hepoch : Instant.epoch.Showable := by decide
  obtain ⟨hnames, -⟩ := answers_after_runAll (.inr rfl) zeroKey similarCalls
  exact ⟨(hnames "ab" "c" (by decide) (by decide)).1 "second" .epoch rfl hepoch,
    (hnames "a" "bc" (by decide) (by decide)).2.1.mpr rfl⟩

end ProjectHub.Vault
