import ProjectHub.Proofs.NameMap
import ProjectHub.Realm.Basic

/-!
# Well-formed realms and their agreement

A realm is well formed when its tables and indexes are stored under their own
names, no table has two columns of one name, and keys and indexes are on columns
there are. Two realms agree when they have the same tables but for the order of
the columns.
-/

namespace ProjectHub

namespace Table

/-- A table that could stand in a realm. -/
structure WellFormed (t : Table) : Prop where
  /-- No two columns have one name. -/
  distinct : (t.columns.map Column.name).Nodup
  /-- Each index is stored under its own name. -/
  ownName : ∀ {name index}, t.indexes.get? name = some index → index.name = name
  /-- The primary key is on columns there are. -/
  key : ∀ column ∈ t.primaryKey, t.hasColumn column = true
  /-- Each index is on columns there are. -/
  indexed : ∀ {name index}, t.indexes.get? name = some index →
    ∀ column ∈ index.columns, t.hasColumn column = true

/-- Two tables that differ in nothing but the order of their columns. -/
structure Agrees (a b : Table) : Prop where
  name : a.name = b.name
  primaryKey : a.primaryKey = b.primaryKey
  indexes : a.indexes = b.indexes
  columns : a.columns.Perm b.columns

instance (t : Table) : Decidable t.WellFormed :=
  decidable_of_iff
    ((t.columns.map Column.name).Nodup ∧ (∀ e ∈ t.indexes.toList, e.2.name = e.1) ∧
      (∀ column ∈ t.primaryKey, t.hasColumn column = true) ∧
      ∀ e ∈ t.indexes.toList, ∀ column ∈ e.2.columns, t.hasColumn column = true)
    ⟨fun ⟨hd, ho, hk, hi⟩ => ⟨hd, fun h => ho _ (NameMap.mem_toList_iff.2 h), hk,
        fun h => hi _ (NameMap.mem_toList_iff.2 h)⟩,
      fun h => ⟨h.distinct, fun _ he => h.ownName (NameMap.mem_toList_iff.1 he), h.key,
        fun _ he => h.indexed (NameMap.mem_toList_iff.1 he)⟩⟩

theorem hasColumn_iff {t : Table} {name : String} :
    t.hasColumn name = true ↔ ∃ c ∈ t.columns, c.name = name := by
  simp [hasColumn, column?]

theorem mem_of_column? {t : Table} {name : String} {c : Column} (h : t.column? name = some c) :
    c ∈ t.columns ∧ c.name = name :=
  ⟨List.mem_of_find?_eq_some h, by simpa using List.find?_some h⟩

/-- Where names are distinct, every column is found by its name. -/
theorem column?_eq_some_iff {t : Table} (h : (t.columns.map Column.name).Nodup) {name : String}
    {c : Column} : t.column? name = some c ↔ c ∈ t.columns ∧ c.name = name := by
  constructor
  · exact mem_of_column?
  · rintro ⟨hm, rfl⟩
    cases hf : t.column? c.name with
    | none => simpa using List.find?_eq_none.1 hf c hm
    | some d =>
        have hd := mem_of_column? hf
        rw [List.inj_on_of_nodup_map h hd.1 hm hd.2]

namespace Agrees

variable {a b c : Table}

theorem refl (a : Table) : a.Agrees a := ⟨rfl, rfl, rfl, .refl _⟩

theorem symm (h : a.Agrees b) : b.Agrees a :=
  ⟨h.name.symm, h.primaryKey.symm, h.indexes.symm, h.columns.symm⟩

theorem trans (h₁ : a.Agrees b) (h₂ : b.Agrees c) : a.Agrees c :=
  ⟨h₁.name.trans h₂.name, h₁.primaryKey.trans h₂.primaryKey, h₁.indexes.trans h₂.indexes,
    h₁.columns.trans h₂.columns⟩

theorem hasColumn (h : a.Agrees b) (name : String) : a.hasColumn name = b.hasColumn name := by
  rw [Bool.eq_iff_iff, hasColumn_iff, hasColumn_iff]
  simp only [h.columns.mem_iff]

theorem wellFormed (h : a.Agrees b) (hb : b.WellFormed) : a.WellFormed where
  distinct := ((h.columns.map Column.name).nodup_iff).2 hb.distinct
  ownName := fun hi => hb.ownName (h.indexes ▸ hi)
  key := fun column hc => (h.hasColumn column).trans (hb.key column (h.primaryKey ▸ hc))
  indexed := fun hi column hc => (h.hasColumn column).trans (hb.indexed (h.indexes ▸ hi) column hc)

theorem column? (h : a.Agrees b) (hb : b.WellFormed) (name : String) :
    a.column? name = b.column? name := by
  apply Option.ext
  intro column
  rw [column?_eq_some_iff (h.wellFormed hb).distinct, column?_eq_some_iff hb.distinct,
    h.columns.mem_iff]

end Agrees

end Table

namespace Realm

/-- A realm of well-formed tables, each under its own name. -/
structure WellFormed (r : Realm) : Prop where
  /-- Each table is stored under its own name. -/
  ownName : ∀ {name t}, r.tables.get? name = some t → t.name = name
  tables : ∀ {name t}, r.tables.get? name = some t → t.WellFormed

instance (r : Realm) : Decidable r.WellFormed :=
  decidable_of_iff (∀ e ∈ r.tables.toList, e.2.name = e.1 ∧ e.2.WellFormed)
    ⟨fun h => ⟨fun ht => (h _ (NameMap.mem_toList_iff.2 ht)).1,
        fun ht => (h _ (NameMap.mem_toList_iff.2 ht)).2⟩,
      fun h _ he => ⟨h.ownName (NameMap.mem_toList_iff.1 he), h.tables (NameMap.mem_toList_iff.1 he)⟩⟩

/-- A realm in which each table is stored under its own name and has no two columns of one
name. -/
structure Named (r : Realm) : Prop where
  ownName : ∀ {name t}, r.tables.get? name = some t → t.name = name
  distinct : ∀ {name t}, r.tables.get? name = some t → (t.columns.map Column.name).Nodup

theorem WellFormed.named {r : Realm} (h : r.WellFormed) : r.Named :=
  ⟨h.ownName, fun ht => (h.tables ht).distinct⟩

/-- Two realms with the same tables, up to the order of columns. -/
def Agrees (a b : Realm) : Prop :=
  ∀ name, Option.Rel Table.Agrees (a.tables.get? name) (b.tables.get? name)

theorem Agrees.wellFormed {a b : Realm} (h : a.Agrees b) (hb : b.WellFormed) : a.WellFormed := by
  have both : ∀ {name t}, a.tables.get? name = some t →
      ∃ u, b.tables.get? name = some u ∧ t.Agrees u := by
    intro name t ht
    have hn := h name
    rw [ht] at hn
    cases hu : b.tables.get? name with
    | none => rw [hu] at hn; cases hn
    | some u =>
        rw [hu] at hn
        cases hn with
        | some agrees => exact ⟨u, rfl, agrees⟩
  constructor
  · intro name t ht
    obtain ⟨u, hu, agrees⟩ := both ht
    exact agrees.name.trans (hb.ownName hu)
  · intro name t ht
    obtain ⟨u, hu, agrees⟩ := both ht
    exact agrees.wellFormed (hb.tables hu)

end Realm

end ProjectHub

/-!
## Realms put together

Realms that share no name of a table are put together without loss: each stands
in the union as it was.
-/

namespace ProjectHub.Realm

/-- The tables of both realms; where both have a name, the second counts. -/
def union (a b : Realm) : Realm :=
  ⟨a.tables.union b.tables⟩

/-- Whether no table of one realm has the name of a table of the other. -/
def Apart (a b : Realm) : Prop :=
  ∀ name, a.tables.contains name = true → b.tables.contains name = false

/-- Whether the tables of one realm are tables of another, under the same names. -/
def Within (a b : Realm) : Prop :=
  ∀ name t, a.tables.get? name = some t → b.tables.get? name = some t

theorem get?_union (a b : Realm) (name : String) :
    (a.union b).tables.get? name = (b.tables.get? name).or (a.tables.get? name) :=
  NameMap.get?_union _ _ _

theorem contains_iff {r : Realm} {name : String} :
    r.tables.contains name = true ↔ ∃ t, r.tables.get? name = some t :=
  Option.isSome_iff_exists

theorem contains_union (a b : Realm) (name : String) :
    (a.union b).tables.contains name = (a.tables.contains name || b.tables.contains name) := by
  unfold NameMap.contains
  rw [get?_union, Option.isSome_or, Bool.or_comm]

theorem eq_of_get? {a b : Realm} (h : ∀ name, a.tables.get? name = b.tables.get? name) : a = b :=
  congrArg Realm.mk (NameMap.ext_get? h)

@[simp] theorem union_empty (a : Realm) : a.union .empty = a := rfl

/-- A table put into the second of two realms is put into both together. -/
theorem union_insert (a : Realm) (tables : NameMap Table) (name : String) (t : Table) :
    a.union ⟨tables.insert name t⟩ = ⟨(a.union ⟨tables⟩).tables.insert name t⟩ := by
  refine eq_of_get? fun other => ?_
  rw [get?_union, NameMap.get?_insert, NameMap.get?_insert, get?_union]
  split <;> rfl

theorem Within.refl (a : Realm) : a.Within a :=
  fun _ _ h => h

theorem Within.trans {a b c : Realm} (h : a.Within b) (h' : b.Within c) : a.Within c :=
  fun name t ht => h' name t (h name t ht)

theorem within_insert {r : Realm} {name : String} (hfree : r.tables.contains name = false)
    (t : Table) : r.Within ⟨r.tables.insert name t⟩ := by
  intro other found hfound
  rw [NameMap.get?_insert_of_ne _ _ fun same => ?_]
  · exact hfound
  · rw [same, NameMap.contains, hfound] at hfree
    cases hfree

theorem within_union_right (a b : Realm) : b.Within (a.union b) := by
  intro name t ht
  rw [get?_union, ht]
  rfl

theorem Apart.empty (a : Realm) : a.Apart .empty :=
  fun _ _ => rfl

theorem Apart.symm {a b : Realm} (h : a.Apart b) : b.Apart a := by
  intro name hb
  cases ha : a.tables.contains name with
  | false => rfl
  | true => rw [h name ha] at hb; cases hb

theorem Apart.within_left {a b : Realm} (h : a.Apart b) : a.Within (a.union b) := by
  intro name t ht
  have hfree := h name (contains_iff.mpr ⟨t, ht⟩)
  rw [get?_union, Option.not_isSome_iff_eq_none.mp (Bool.eq_false_iff.mp hfree), Option.none_or, ht]

theorem Apart.of_within {a b c : Realm} (h : a.Apart c) (hb : b.Within c) : a.Apart b := by
  intro name ha
  cases hname : b.tables.contains name with
  | false => rfl
  | true =>
      obtain ⟨t, ht⟩ := contains_iff.mp hname
      rw [← h name ha, contains_iff.mpr ⟨t, hb name t ht⟩]

theorem apart_union_iff {a b c : Realm} : (a.union b).Apart c ↔ a.Apart c ∧ b.Apart c := by
  unfold Apart
  simp only [contains_union, Bool.or_eq_true, or_imp, forall_and]

/-- The union of realms that are apart has the tables of both. -/
theorem Apart.get?_union_iff {a b : Realm} (h : a.Apart b) {name : String} {t : Table} :
    (a.union b).tables.get? name = some t ↔
      a.tables.get? name = some t ∨ b.tables.get? name = some t := by
  constructor
  · rw [get?_union, Option.or_eq_some_iff]
    rintro (hb | ⟨-, ha⟩)
    · exact .inr hb
    · exact .inl ha
  · rintro (ha | hb)
    · exact h.within_left name t ha
    · exact within_union_right a b name t hb

theorem pairwise_union_iff {a b : Realm} (h : a.Apart b) (realms : List Realm) :
    (a.union b :: realms).Pairwise Apart ↔ (a :: b :: realms).Pairwise Apart := by
  simp only [List.pairwise_cons, apart_union_iff, List.forall_mem_cons, forall_and, h, true_and,
    and_assoc]

/-- The union of realms of which any two are apart has the tables of all. -/
theorem get?_foldl_union {a : Realm} {realms : List Realm} (h : (a :: realms).Pairwise Apart)
    {name : String} {t : Table} : (realms.foldl union a).tables.get? name = some t ↔
      ∃ r ∈ a :: realms, r.tables.get? name = some t := by
  induction realms generalizing a with
  | nil => simp
  | cons b realms ih =>
      have hapart : a.Apart b := (List.pairwise_cons.mp h).1 b List.mem_cons_self
      rw [List.foldl_cons, ih ((pairwise_union_iff hapart realms).mpr h)]
      simp only [List.exists_mem_cons_iff, hapart.get?_union_iff, or_assoc]

end ProjectHub.Realm
