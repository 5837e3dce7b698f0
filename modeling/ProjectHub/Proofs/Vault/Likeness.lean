import ProjectHub.Proofs.Run
import ProjectHub.Proofs.Vault.Keeping

/-!
# Vaults that read alike

What a vault gives for a name depends on one entry of its store. Vaults whose entries
open to the same, or under some names just open to texts, give the same under the
other names and the same names; whether a secret is there and can be opened is the
same under every name.
-/

namespace ProjectHub.Vault

namespace Store

/-- Stores that are both in memory or both in a database. -/
def SameKind : Store → Store → Prop
  | memory _, memory _ => True
  | database _, database _ => True
  | _, _ => False

/-- Reads the time of an entry; memory holds no time that could not be read. -/
def readTime (store : Store) (time : String) : Except Storage.Error Unit :=
  match store with
  | memory _ => .ok ()
  | database _ => (Storage.readTimestamp "updated_at" time).map fun _ => ()

theorem SameKind.refl : (store : Store) → store.SameKind store
  | memory _ => trivial
  | database _ => trivial

theorem SameKind.symm {a b : Store} (h : a.SameKind b) : b.SameKind a := by
  cases a <;> cases b <;> exact h

theorem SameKind.trans {a b c : Store} (h : a.SameKind b) (h' : b.SameKind c) : a.SameKind c := by
  cases a <;> cases b <;> cases c <;> first | exact h.elim | exact h'.elim | trivial

theorem sameKind_put (store : Store) (record : Record) : store.SameKind (store.put record) := by
  cases store <;> trivial

theorem sameKind_erase (store : Store) (project key : String) :
    store.SameKind (store.erase project key) := by
  cases store <;> trivial

theorem SameKind.readTime {a b : Store} (h : a.SameKind b) (time : String) :
    a.readTime time = b.readTime time := by
  cases a <;> cases b <;> first | exact h.elim | rfl

end Store

/-- The value of a sealed text. -/
def valueOf (masterKey : SealKey) (sealed : String) : Except Error Secret := do
  let plain ← openText masterKey sealed
  match Text.ofUtf8? plain with
  | some value => return ⟨value⟩
  | none => throw (.unreadable .notText)

theorem valueOf_sealText (masterKey : SealKey) (nonce : Nonce) (value : String) :
    valueOf masterKey (sealText masterKey nonce (Text.toUtf8 value)) = .ok ⟨value⟩ := by
  simp only [valueOf, openText_sealText, bind, Except.bind, Text.ofUtf8?_toUtf8]
  rfl

theorem toUtf8_sealText_ne_nil (masterKey : SealKey) (nonce : Nonce) (plain : List UInt8) :
    Text.toUtf8 (sealText masterKey nonce plain) ≠ [] := by
  intro hnil
  have hempty : sealText masterKey nonce plain = "" :=
    Text.toUTF8_injective (hnil.trans (Text.toList_toUTF8 "").symm)
  have hlength := length_sealText masterKey nonce plain
  rw [hempty, String.length_empty] at hlength
  omega

/-- What a vault gives for a name is made of the entry under it. -/
theorem get_eq (v : Vault) (project key : String) :
    v.get project key = (checkNames project key).bind fun _ =>
      match v.store.stored? project key with
      | none => .error (.notFound project key)
      | some entry => ((v.store.readTime entry.2).mapError .store).bind fun _ =>
          valueOf v.masterKey entry.1 := by
  simp only [get, valueOf, bind]
  cases checkNames project key with
  | error error => rfl
  | ok u =>
      cases hstore : v.store with
      | memory records =>
          simp only [Store.get, Store.stored?, Store.readTime]
          cases records.getAt? project key <;> rfl
      | database rows =>
          simp only [Store.get, Store.stored?, Store.readTime]
          cases rows.getAt? project key with
          | none => rfl
          | some row =>
              simp only [Option.map_some]
              cases Storage.readTimestamp "updated_at" row.updatedAt <;> rfl

/-! ## Alike -/

/-- Whether entries of one time open to the same, or, if they are hidden, both to texts. -/
def OpensAlike (masterKey : SealKey) (hidden : Prop) (entry entry' : String × String) : Prop :=
  entry.2 = entry'.2 ∧ (valueOf masterKey entry.1 = valueOf masterKey entry'.1 ∨
    hidden ∧ ∃ value value', valueOf masterKey entry.1 = .ok value ∧
      valueOf masterKey entry'.1 = .ok value')

theorem OpensAlike.refl (masterKey : SealKey) (hidden : Prop) (entry : String × String) :
    OpensAlike masterKey hidden entry entry :=
  ⟨rfl, .inl rfl⟩

theorem OpensAlike.symm {masterKey : SealKey} {hidden : Prop} {a b : String × String}
    (h : OpensAlike masterKey hidden a b) : OpensAlike masterKey hidden b a := by
  obtain ⟨htime, hsame | ⟨hhidden, value, value', ha, hb⟩⟩ := h
  · exact ⟨htime.symm, .inl hsame.symm⟩
  · exact ⟨htime.symm, .inr ⟨hhidden, value', value, hb, ha⟩⟩

theorem OpensAlike.trans {masterKey : SealKey} {hidden : Prop} {a b c : String × String}
    (h : OpensAlike masterKey hidden a b) (h' : OpensAlike masterKey hidden b c) :
    OpensAlike masterKey hidden a c := by
  obtain ⟨htime, hvalue⟩ := h
  obtain ⟨htime', hvalue'⟩ := h'
  refine ⟨htime.trans htime', ?_⟩
  rcases hvalue with hsame | ⟨hhidden, value, value', ha, hb⟩
  · rw [hsame]
    exact hvalue'
  · rcases hvalue' with hsame | ⟨-, -, value'', -, hc⟩
    · exact .inr ⟨hhidden, value, value', ha, hsame ▸ hb⟩
    · exact .inr ⟨hhidden, value, value'', ha, hc⟩

/-- Vaults under one key whose entries for some projects open alike. Under hidden names that is
only to say that they open. -/
structure Alike (mine hidden : String → Prop) (a b : Vault) : Prop where
  masterKey : a.masterKey = b.masterKey
  kind : a.store.SameKind b.store
  entries : ∀ project, mine project → ∀ key,
    Option.Rel (OpensAlike a.masterKey (hidden key)) (a.store.stored? project key)
      (b.store.stored? project key)

section Alike

variable {mine hidden : String → Prop} {a b c : Vault}

theorem Alike.refl (v : Vault) : v.Alike mine hidden v := by
  refine ⟨rfl, .refl _, fun project _ key => ?_⟩
  cases v.store.stored? project key with
  | none => exact .none
  | some entry => exact .some (.refl _ _ _)

theorem Alike.symm (h : a.Alike mine hidden b) : b.Alike mine hidden a := by
  refine ⟨h.masterKey.symm, h.kind.symm, fun project hmine key => ?_⟩
  have hrel := h.entries project hmine key
  rw [h.masterKey] at hrel
  generalize a.store.stored? project key = entry at hrel
  generalize b.store.stored? project key = entry' at hrel
  cases hrel with
  | none => exact .none
  | some hentry => exact .some hentry.symm

theorem Alike.trans (h : a.Alike mine hidden b) (h' : b.Alike mine hidden c) :
    a.Alike mine hidden c := by
  refine ⟨h.masterKey.trans h'.masterKey, h.kind.trans h'.kind, fun project hmine key => ?_⟩
  have hrel := h.entries project hmine key
  have hrel' := h'.entries project hmine key
  rw [← h.masterKey] at hrel'
  generalize a.store.stored? project key = entry at hrel
  generalize b.store.stored? project key = entry' at hrel hrel'
  generalize c.store.stored? project key = entry'' at hrel'
  cases hrel with
  | none => exact hrel'
  | some hentry =>
      cases hrel' with
      | some hentry' => exact .some (hentry.trans hentry')

variable (h : a.Alike mine hidden b)
include h

/-- A secret is given by both or refused by both alike. Under a name that is not hidden it is the
same secret. -/
theorem Alike.get {project : String} (hmine : mine project) (key : String) :
    Matches (fun secret secret' => hidden key ∨ secret = secret') (a.get project key)
      (b.get project key) := by
  have hsame (outcome : Except Error Secret) :
      Matches (fun secret secret' => hidden key ∨ secret = secret') outcome outcome := by
    cases outcome with
    | error error => exact .error error
    | ok secret => exact .ok (.inr rfl)
  have hrel := h.entries project hmine key
  simp only [get_eq, ← h.masterKey, ← h.kind.readTime]
  cases checkNames project key with
  | error error => exact .error error
  | ok u =>
      simp only [Except.bind]
      generalize a.store.stored? project key = entry at hrel
      generalize b.store.stored? project key = entry' at hrel
      cases hrel with
      | none => exact .error _
      | @some entry entry' hentry =>
          obtain ⟨htime, hvalue⟩ := hentry
          simp only [← htime]
          cases (a.store.readTime entry.2).mapError Error.store with
          | error error => exact .error error
          | ok u =>
              rcases hvalue with hvalue | ⟨hhidden, value, value', hvalue, hvalue'⟩
              · rw [hvalue]
                exact hsame _
              · rw [hvalue, hvalue']
                exact .ok (.inl hhidden)

theorem Alike.get_eq {project : String} (hmine : mine project) {key : String}
    (hkey : ¬ hidden key) : a.get project key = b.get project key := by
  have hmatches := h.get hmine key
  generalize a.get project key = outcome at hmatches
  generalize b.get project key = outcome' at hmatches
  cases hmatches with
  | error error => rfl
  | ok hsecret => rw [hsecret.resolve_left hkey]

theorem Alike.list {project : String} (hmine : mine project) :
    a.list project = b.list project := by
  have hkeys : a.store.keys project = b.store.keys project := by
    have hasymm (x y : String) (_ : x ∈ a.store.keys project) (_ : y ∈ b.store.keys project)
        (hlt : x < y) (hgt : y < x) : x = y :=
      absurd (String.lt_trans hlt hgt) (String.lt_irrefl x)
    refine List.Perm.eq_of_pairwise hasymm (a.store.keys_pairwise project)
      (b.store.keys_pairwise project) ((List.perm_ext_iff_of_nodup (a.store.keys_nodup project)
        (b.store.keys_nodup project)).mpr fun key => ?_)
    have hrel := h.entries project hmine key
    rw [Store.mem_keys_iff, Store.mem_keys_iff]
    generalize a.store.stored? project key = entry at hrel
    generalize b.store.stored? project key = entry' at hrel
    cases hrel <;> rfl
  rw [Vault.list, Vault.list, hkeys]

/-- A value is stored alike, whatever the nonces; under a hidden name values may differ. -/
theorem Alike.set (nonce nonce' : Nonce) (now : Instant) (project : String) {key value
    value' : String} (hvalue : hidden key ∨ value = value') :
    Matches (Alike mine hidden) (a.set nonce now project key value)
      (b.set nonce' now project key value') := by
  simp only [Vault.set, bind, Except.bind]
  cases checkNames project key with
  | error error => exact .error error
  | ok u =>
      refine .ok ⟨h.masterKey, ?_, fun p hmine k => ?_⟩
      · exact (Store.sameKind_put _ _).symm.trans (h.kind.trans (Store.sameKind_put _ _))
      · simp only [Store.stored?_put]
        split
        · rename_i hname
          obtain ⟨rfl, rfl⟩ := hname
          refine .some ⟨rfl, ?_⟩
          rcases hvalue with hhidden | rfl
          · exact .inr ⟨hhidden, _, _, valueOf_sealText _ _ _, by
              rw [h.masterKey, valueOf_sealText]⟩
          · exact .inl (by rw [valueOf_sealText, h.masterKey, valueOf_sealText])
        · exact h.entries p hmine k

theorem Alike.delete (project key : String) :
    Matches (Alike mine hidden) (a.delete project key) (b.delete project key) := by
  simp only [Vault.delete, bind, Except.bind]
  cases checkNames project key with
  | error error => exact .error error
  | ok u =>
      refine .ok ⟨h.masterKey, ?_, fun p hmine k => ?_⟩
      · exact (Store.sameKind_erase _ _ _).symm.trans (h.kind.trans (Store.sameKind_erase _ _ _))
      · simp only [Store.stored?_erase]
        split
        · exact .none
        · exact h.entries p hmine k

/-- A value is sealed for an edge by both or refused by both alike. -/
theorem Alike.reencrypt {project : String} (hmine : mine project) (nonce nonce' : Nonce)
    (key : String) (edgeKey : List UInt8) :
    Matches (fun sealed sealed' => (nonce = nonce' → ¬ hidden key → sealed = sealed') ∧
        Text.toUtf8 sealed ≠ [] ∧ Text.toUtf8 sealed' ≠ [])
      (a.reencrypt nonce project key edgeKey) (b.reencrypt nonce' project key edgeKey) := by
  simp only [Vault.reencrypt, bind, Except.bind]
  cases SealKey.ofBytes edgeKey with
  | error error => exact .error error
  | ok edgeKey =>
      have hget := h.get hmine key
      simp only
      generalize a.get project key = found at hget
      generalize b.get project key = found' at hget
      cases hget with
      | error error => exact .error error
      | ok hsecret =>
          refine .ok ⟨fun hnonce hkey => ?_, ?_, ?_⟩
          · rw [hnonce, hsecret.resolve_left hkey]
          · exact toUtf8_sealText_ne_nil _ _ _
          · exact toUtf8_sealText_ne_nil _ _ _

end Alike

/-! ## Names that are left alone -/

section Other

variable {mine hidden : String → Prop} {v next : Vault} {project : String}

/-- What is stored or removed for one project leaves the others. -/
theorem alike_set (hother : ¬ mine project) {nonce : Nonce} {now : Instant} {key value : String}
    (h : v.set nonce now project key value = .ok next) : v.Alike mine hidden next := by
  obtain ⟨u, -, h⟩ := exists_of_bind_ok h
  cases h
  refine ⟨rfl, Store.sameKind_put _ _, fun p hmine k => ?_⟩
  have hname : ¬ (project = p ∧ key = k) := fun hname => hother (hname.1 ▸ hmine)
  rw [Store.stored?_put, if_neg hname]
  exact (Alike.refl v).entries p hmine k

theorem alike_delete (hother : ¬ mine project) {key : String}
    (h : v.delete project key = .ok next) : v.Alike mine hidden next := by
  obtain ⟨u, -, h⟩ := exists_of_bind_ok h
  cases h
  refine ⟨rfl, Store.sameKind_erase _ _ _, fun p hmine k => ?_⟩
  have hname : ¬ (project = p ∧ key = k) := fun hname => hother (hname.1 ▸ hmine)
  rw [Store.stored?_erase, if_neg hname]
  exact (Alike.refl v).entries p hmine k

/-- A secret that is given after another was stored is that one, or was given before. -/
theorem get_of_set {nonce : Nonce} {now : Instant} {key value : String}
    (h : v.set nonce now project key value = .ok next) {p k : String} {secret : Secret}
    (hget : next.get p k = .ok secret) :
    (project = p ∧ key = k ∧ secret = ⟨value⟩) ∨ v.get p k = .ok secret := by
  obtain ⟨u, -, h⟩ := exists_of_bind_ok h
  cases h
  simp only [get_eq, Store.stored?_put] at hget ⊢
  by_cases hname : project = p ∧ key = k
  · refine .inl ⟨hname.1, hname.2, ?_⟩
    rw [if_pos hname] at hget
    obtain ⟨-, -, hget⟩ := exists_of_bind_ok hget
    obtain ⟨-, -, hget⟩ := exists_of_bind_ok hget
    rw [valueOf_sealText] at hget
    exact (Except.ok.inj hget).symm
  · rw [if_neg hname] at hget
    simp only [← (Store.sameKind_put v.store _).readTime] at hget
    exact .inr hget

theorem get_of_delete {key : String} (h : v.delete project key = .ok next) {p k : String}
    {secret : Secret} (hget : next.get p k = .ok secret) : v.get p k = .ok secret := by
  obtain ⟨u, -, h⟩ := exists_of_bind_ok h
  cases h
  simp only [get_eq, Store.stored?_erase] at hget ⊢
  by_cases hname : project = p ∧ key = k
  · rw [if_pos hname] at hget
    obtain ⟨-, -, hget⟩ := exists_of_bind_ok hget
    cases hget
  · rw [if_neg hname] at hget
    simp only [← (Store.sameKind_erase v.store _ _).readTime] at hget
    exact hget

end Other

end ProjectHub.Vault
