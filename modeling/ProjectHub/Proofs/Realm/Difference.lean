import ProjectHub.Proofs.Realm.Agreement
import ProjectHub.Proofs.Text.Words
import ProjectHub.Realm.Diff

/-!
# What the difference of two tables consists of

The changes in place from one shape of a table to another are four groups, each
over a list that is told here on its own: the indexes lost, the columns lost,
the columns gained and the indexes gained. A table is not rebuilt exactly where
these groups can be carried out, and there is nothing to do exactly where the
two shapes agree.
-/

namespace ProjectHub

namespace Table

/-- The names of the indexes that the new shape does not have as they are. -/
def lostIndexes (before after : Table) : List String :=
  (before.indexes.toList.filter fun e => decide (after.indexes.get? e.1 ≠ some e.2)).map Prod.fst

/-- The names of the columns that the new shape does not have. -/
def lostColumns (before after : Table) : List String :=
  (before.columns.filter fun c => !after.hasColumn c.name).map Column.name

/-- The columns that the old shape does not have. -/
def gainedColumns (before after : Table) : List Column :=
  after.columns.filter fun c => !before.hasColumn c.name

/-- The indexes that the old shape does not have as they are. -/
def gainedIndexes (before after : Table) : List (String × Index) :=
  after.indexes.toList.filter fun e => decide (before.indexes.get? e.1 ≠ some e.2)

private theorem filterMap_ite {α β : Type} (p : α → Prop) [DecidablePred p] (f : α → β)
    (l : List α) :
    (l.filterMap fun a => if p a then none else some (f a)) =
      (l.filter fun a => decide (¬p a)).map f := by
  induction l with
  | nil => rfl
  | cons a l ih => by_cases h : p a <;> simp [h, ih]

theorem changesInPlace_eq (before after : Table) :
    changesInPlace before after =
      (lostIndexes before after).map (SchemaChange.dropIndex after.name) ++
        (lostColumns before after).map (SchemaChange.dropColumn after.name) ++
        (gainedColumns before after).map (SchemaChange.addColumn after.name) ++
        (gainedIndexes before after).map fun e => SchemaChange.addIndex after.name e.2 := by
  simp only [changesInPlace, lostIndexes, lostColumns, gainedColumns, gainedIndexes,
    filterMap_ite, List.map_map]
  simp only [Function.comp_def, Bool.not_eq_true, Bool.decide_eq_false]

theorem mem_lostIndexes_iff {before after : Table} {name : String} :
    name ∈ lostIndexes before after ↔
      ∃ i, before.indexes.get? name = some i ∧ after.indexes.get? name ≠ some i := by
  simp [lostIndexes, NameMap.mem_toList_iff]

theorem mem_lostColumns_iff {before after : Table} {name : String} :
    name ∈ lostColumns before after ↔
      before.hasColumn name = true ∧ after.hasColumn name = false := by
  simp only [lostColumns, List.mem_map, List.mem_filter, Bool.not_eq_true', hasColumn_iff]
  constructor
  · rintro ⟨c, ⟨hm, ha⟩, rfl⟩
    exact ⟨⟨c, hm, rfl⟩, ha⟩
  · rintro ⟨⟨c, hm, rfl⟩, ha⟩
    exact ⟨c, ⟨hm, ha⟩, rfl⟩

theorem mem_gainedColumns_iff {before after : Table} {c : Column} :
    c ∈ gainedColumns before after ↔ c ∈ after.columns ∧ before.hasColumn c.name = false := by
  simp [gainedColumns]

theorem mem_gainedIndexes_iff {before after : Table} {e : String × Index} :
    e ∈ gainedIndexes before after ↔
      after.indexes.get? e.1 = some e.2 ∧ before.indexes.get? e.1 ≠ some e.2 := by
  obtain ⟨name, i⟩ := e
  simp [gainedIndexes, NameMap.mem_toList_iff]

/-! ## When a table can be changed in place -/

/-- What it takes that a table need not be rebuilt. -/
structure Changeable (before after : Table) : Prop where
  primaryKey : before.primaryKey = after.primaryKey
  /-- A column both shapes have is the same in both. -/
  unchanged : ∀ c ∈ after.columns, ∀ d, before.column? c.name = some d → d = c
  /-- No new column needs values. -/
  addable : ∀ c ∈ gainedColumns before after, needsValues c = false
  /-- No index that stays is on a column that goes. -/
  droppable : ∀ name ∈ lostColumns before after, keepsIndexOn before after name = false

theorem changeable_iff {before after : Table} : Changeable before after ↔
    before.primaryKey = after.primaryKey ∧
      (∀ c ∈ after.columns, ∀ d, before.column? c.name = some d → d = c) ∧
      (∀ c ∈ gainedColumns before after, needsValues c = false) ∧
      ∀ name ∈ lostColumns before after, keepsIndexOn before after name = false :=
  ⟨fun h => ⟨h.primaryKey, h.unchanged, h.addable, h.droppable⟩,
    fun ⟨hkey, hunchanged, haddable, hdroppable⟩ => ⟨hkey, hunchanged, haddable, hdroppable⟩⟩

theorem needsRebuild_eq_false_iff {before after : Table} :
    needsRebuild before after = false ↔ Changeable before after := by
  simp only [needsRebuild, Bool.or_eq_false_iff, bne_eq_false_iff_eq, List.any_eq_false]
  constructor
  · rintro ⟨⟨⟨hk, hu⟩, ha⟩, hd⟩
    refine ⟨hk, ?_, ?_, ?_⟩
    · intro c hc d hf
      simpa [hf] using hu c hc
    · intro c hc
      simpa using ha c hc
    · intro name hn
      obtain ⟨c, hc, rfl⟩ := List.mem_map.1 hn
      obtain ⟨hm, ho⟩ := List.mem_filter.1 hc
      simpa [ho] using hd c hm
  · rintro ⟨hk, hu, ha, hd⟩
    refine ⟨⟨⟨hk, ?_⟩, ?_⟩, ?_⟩
    · intro c hc
      cases hf : before.column? c.name with
      | none => simp
      | some d => simp [hu c hc d hf]
    · intro c hc
      simp [ha c hc]
    · intro c hm
      cases ho : after.hasColumn c.name with
      | true => simp
      | false => simp [hd c.name (List.mem_map.2 ⟨c, by simp [hm, ho], rfl⟩)]

/-! ## When there is nothing to do -/

section

variable {before after : Table}

theorem changesInPlace_eq_nil_iff :
    changesInPlace before after = [] ↔
      before.indexes = after.indexes ∧ ∀ name, before.hasColumn name = after.hasColumn name := by
  rw [changesInPlace_eq]
  simp only [List.append_eq_nil_iff, List.map_eq_nil_iff]
  simp only [List.eq_nil_iff_forall_not_mem, mem_lostIndexes_iff, mem_lostColumns_iff,
    mem_gainedColumns_iff, mem_gainedIndexes_iff]
  constructor
  · rintro ⟨⟨⟨hli, hlc⟩, hgc⟩, hgi⟩
    constructor
    · apply NameMap.ext_get?
      intro name
      apply Option.ext
      intro i
      constructor
      · intro h
        exact Decidable.not_not.1 fun hn => hli name ⟨i, h, hn⟩
      · intro h
        exact Decidable.not_not.1 fun hn => hgi (name, i) ⟨h, hn⟩
    · intro name
      cases hb : before.hasColumn name with
      | true =>
          cases ha : after.hasColumn name with
          | true => rfl
          | false => exact absurd ⟨hb, ha⟩ (hlc name)
      | false =>
          cases ha : after.hasColumn name with
          | false => rfl
          | true =>
              obtain ⟨c, hc, rfl⟩ := hasColumn_iff.1 ha
              exact absurd ⟨hc, hb⟩ (hgc c)
  · rintro ⟨hi, hc⟩
    refine ⟨⟨⟨?_, ?_⟩, ?_⟩, ?_⟩
    · rintro name ⟨i, h, hn⟩
      exact hn (hi ▸ h)
    · rintro name ⟨hb, ha⟩
      rw [hc, ha] at hb
      cases hb
    · rintro c ⟨hm, hb⟩
      rw [hc, hasColumn_iff.2 ⟨c, hm, rfl⟩] at hb
      cases hb
    · rintro e ⟨h, hn⟩
      exact hn (hi ▸ h)

/-- The one change between two shapes of a table is that it is rebuilt. -/
def Rebuilds (before after : Table) : Prop :=
  before.diff after = [.rebuildTable before after (sharedColumns before after)]

/-- A table is rebuilt exactly if it is another one and cannot be changed in place. -/
theorem rebuilds_iff : before.Rebuilds after ↔ before ≠ after ∧ ¬Changeable before after := by
  unfold Rebuilds diff
  by_cases hsame : before = after
  · simp [hsame]
  · rw [if_neg hsame, ← needsRebuild_eq_false_iff]
    cases needsRebuild before after with
    | true => simp [hsame]
    | false =>
        have hplace : SchemaChange.rebuildTable before after (sharedColumns before after) ∉
            changesInPlace before after := by
          simp [changesInPlace_eq]
        refine iff_of_false (fun h => hplace ?_) (by simp)
        rw [if_neg Bool.false_ne_true] at h
        rw [h]
        exact List.mem_singleton_self _

/-- Shapes that agree can be changed into each other in place. -/
theorem Agrees.changeable (h : before.Agrees after) (ha : after.WellFormed) :
    Changeable before after where
  primaryKey := h.primaryKey
  unchanged := by
    intro c hc d hd
    rw [h.column? ha, column?_eq_some_iff ha.distinct] at hd
    exact List.inj_on_of_nodup_map ha.distinct hd.1 hc hd.2
  addable := by
    intro c hc
    obtain ⟨hm, hb⟩ := mem_gainedColumns_iff.1 hc
    rw [h.hasColumn, hasColumn_iff.2 ⟨c, hm, rfl⟩] at hb
    cases hb
  droppable := by
    intro name hn
    obtain ⟨hb, ho⟩ := mem_lostColumns_iff.1 hn
    rw [h.hasColumn, ho] at hb
    cases hb

/-- Two shapes with columns of the same names, none of them changed, have the same columns. -/
theorem Changeable.perm (h : Changeable before after)
    (hb : (before.columns.map Column.name).Nodup) (ha : after.WellFormed)
    (names : ∀ name, before.hasColumn name = after.hasColumn name) :
    before.columns.Perm after.columns := by
  rw [List.perm_ext_iff_of_nodup (hb.of_map _) (ha.distinct.of_map _)]
  intro c
  constructor
  · intro hc
    have has : after.hasColumn c.name = true := names c.name ▸ hasColumn_iff.2 ⟨c, hc, rfl⟩
    obtain ⟨d, hd, name⟩ := hasColumn_iff.1 has
    have found : before.column? d.name = some c :=
      (column?_eq_some_iff hb).2 ⟨hc, name.symm⟩
    exact h.unchanged d hd c found ▸ hd
  · intro hc
    have has : before.hasColumn c.name = true :=
      (names c.name).symm ▸ hasColumn_iff.2 ⟨c, hc, rfl⟩
    obtain ⟨d, found⟩ := Option.isSome_iff_exists.1 has
    exact h.unchanged c hc d found ▸ (mem_of_column? found).1

/-- There is nothing to change exactly where the shapes agree. -/
theorem diff_eq_nil_iff (hb : (before.columns.map Column.name).Nodup) (ha : after.WellFormed)
    (name : before.name = after.name) : before.diff after = [] ↔ before.Agrees after := by
  unfold diff
  split
  · rename_i same
    exact ⟨fun _ => same ▸ Agrees.refl before, fun _ => rfl⟩
  · cases hr : needsRebuild before after with
    | true =>
        simp only [if_true, List.cons_ne_nil, false_iff]
        intro agrees
        rw [needsRebuild_eq_false_iff.2 (agrees.changeable ha)] at hr
        cases hr
    | false =>
        have changeable := needsRebuild_eq_false_iff.1 hr
        simp only [Bool.false_eq_true, if_false, changesInPlace_eq_nil_iff]
        constructor
        · rintro ⟨hi, hc⟩
          exact ⟨name, changeable.primaryKey, hi, changeable.perm hb ha hc⟩
        · intro agrees
          exact ⟨agrees.indexes, agrees.hasColumn⟩

end

end Table

/-! ## Types in another spelling -/

/-- The column with the type that is spelled for its name. -/
def Column.spelled (f : String → String) (c : Column) : Column :=
  { c with sqlType := normalizeType (f c.name) }

/-- The table with the types that are spelled for the names of its columns. -/
def Table.spelled (f : String → String) (t : Table) : Table :=
  { t with columns := t.columns.map (Column.spelled f) }

theorem Column.spelled_eq_iff {f g : String → String} {c d : Column} (hname : d.name = c.name) :
    d.spelled f = c.spelled g ↔ d.spelled g = c.spelled g ∧ SameWords (f c.name) (g c.name) := by
  obtain ⟨name, type, nullable, default⟩ := c
  obtain ⟨name', type', nullable', default'⟩ := d
  obtain rfl : name' = name := hname
  rw [← normalizeType_eq_iff]
  simp only [Column.spelled, Column.mk.injEq, true_and]
  tauto

@[simp] theorem Column.name_spelled (f : String → String) (c : Column) :
    (c.spelled f).name = c.name := by
  cases c
  rfl

namespace Table

section Spelled

variable (f g : String → String) (before after : Table)

@[simp] theorem columns_spelled (t : Table) :
    (t.spelled f).columns = t.columns.map (Column.spelled f) := rfl

theorem column?_spelled (t : Table) (name : String) :
    (t.spelled f).column? name = (t.column? name).map (Column.spelled f) := by
  have hname : (fun c : Column => decide (c.name = name)) ∘ Column.spelled f =
      fun c => decide (c.name = name) := by
    funext c
    rw [Function.comp_apply, Column.name_spelled]
  rw [column?, columns_spelled, List.find?_map, hname, column?]

@[simp] theorem hasColumn_spelled (t : Table) (name : String) :
    (t.spelled f).hasColumn name = t.hasColumn name := by
  rw [hasColumn, column?_spelled, Option.isSome_map, hasColumn]

theorem lostColumns_spelled :
    lostColumns (before.spelled f) (after.spelled g) = lostColumns before after := by
  simp only [lostColumns, hasColumn_spelled, columns_spelled, List.filter_map, List.map_map,
    Function.comp_def, Column.name_spelled]

theorem gainedColumns_spelled : gainedColumns (before.spelled f) (after.spelled g) =
    (gainedColumns before after).map (Column.spelled g) := by
  simp only [gainedColumns, hasColumn_spelled, columns_spelled, List.filter_map,
    Function.comp_def, Column.name_spelled]

@[simp] theorem primaryKey_spelled (t : Table) : (t.spelled f).primaryKey = t.primaryKey := by
  cases t
  rfl

theorem keepsIndexOn_spelled (name : String) :
    keepsIndexOn (before.spelled f) (after.spelled g) name = keepsIndexOn before after name := by
  cases before
  cases after
  rfl

theorem needsValues_spelled (c : Column) : needsValues (c.spelled f) = needsValues c := by
  have hdefault : (c.spelled f).default = c.default ∧ (c.spelled f).nullable = c.nullable := by
    cases c
    exact ⟨rfl, rfl⟩
  rw [needsValues, needsValues, hdefault.1, hdefault.2]

/-- What it takes that a table with types in some spelling need not be rebuilt. -/
theorem changeable_spelled_iff : Changeable (before.spelled f) (after.spelled g) ↔
    before.primaryKey = after.primaryKey ∧
      (∀ c ∈ after.columns, ∀ d, before.column? c.name = some d → d.spelled f = c.spelled g) ∧
      (∀ c ∈ gainedColumns before after, needsValues c = false) ∧
      ∀ name ∈ lostColumns before after, keepsIndexOn before after name = false := by
  rw [changeable_iff]
  simp only [primaryKey_spelled, columns_spelled, List.forall_mem_map, Column.name_spelled,
    column?_spelled, Option.map_eq_some_iff, forall_exists_index, and_imp,
    forall_apply_eq_imp_iff₂, gainedColumns_spelled, needsValues_spelled, lostColumns_spelled,
    keepsIndexOn_spelled]

end Spelled

section Spelled

variable {f g : String → String} {before after : Table}

/-- Whether a table can be changed in place depends on the spelling of types only by the words of
the columns that both shapes have. -/
theorem changeable_spelled_iff_sameWords : Changeable (before.spelled f) (after.spelled g) ↔
    Changeable (before.spelled g) (after.spelled g) ∧
      ∀ name, before.hasColumn name = true → after.hasColumn name = true →
        SameWords (f name) (g name) := by
  rw [changeable_spelled_iff, changeable_spelled_iff]
  constructor
  · rintro ⟨hkey, hunchanged, hothers⟩
    have hparts (c) (hc : c ∈ after.columns) (d) (hd : before.column? c.name = some d) :=
      (Column.spelled_eq_iff (mem_of_column? hd).2).mp (hunchanged c hc d hd)
    refine ⟨⟨hkey, fun c hc d hd => (hparts c hc d hd).1, hothers⟩, fun name hb ha => ?_⟩
    obtain ⟨c, hc, rfl⟩ := hasColumn_iff.mp ha
    obtain ⟨d, hd⟩ := Option.isSome_iff_exists.mp hb
    exact (hparts c hc d hd).2
  · rintro ⟨⟨hkey, hunchanged, hothers⟩, hwords⟩
    refine ⟨hkey, fun c hc d hd => ?_, hothers⟩
    refine (Column.spelled_eq_iff (mem_of_column? hd).2).mpr ⟨hunchanged c hc d hd, ?_⟩
    exact hwords c.name (Option.isSome_iff_exists.mpr ⟨d, hd⟩) (hasColumn_iff.mpr ⟨c, hc, rfl⟩)

theorem spelled_congr {t : Table} (h : ∀ c ∈ t.columns, SameWords (f c.name) (g c.name)) :
    t.spelled f = t.spelled g := by
  have hcolumns : t.columns.map (Column.spelled f) = t.columns.map (Column.spelled g) :=
    List.map_congr_left fun c hc => (Column.spelled_eq_iff rfl).mpr ⟨rfl, h c hc⟩
  rw [spelled, spelled, hcolumns]

/-- Tables that are the same in some spelling have the same columns, so they are the same in any
spelling with the same words. -/
theorem spelled_eq_of_sameWords {h : String → String}
    (hwords : ∀ name, before.hasColumn name = true → after.hasColumn name = true →
      SameWords (f name) (g name)) (hsame : before.spelled h = after.spelled g) :
    before.spelled f = before.spelled g := by
  refine spelled_congr fun c hc => ?_
  have hb : before.hasColumn c.name = true := hasColumn_iff.mpr ⟨c, hc, rfl⟩
  have ha : after.hasColumn c.name = true := by
    rw [← hasColumn_spelled g, ← hsame, hasColumn_spelled, hb]
  exact hwords c.name hb ha

theorem sameWords_of_spelled_eq (hsame : before.spelled f = after.spelled g) {name : String}
    (hb : before.hasColumn name = true) (ha : after.hasColumn name = true) :
    SameWords (f name) (g name) := by
  obtain ⟨d, hd⟩ := Option.isSome_iff_exists.mp hb
  obtain ⟨c, hc⟩ := Option.isSome_iff_exists.mp ha
  have hcolumn := congrArg (fun t => t.column? name) hsame
  simp only [column?_spelled, hc, hd, Option.map_some, Option.some.injEq] at hcolumn
  have hname := (mem_of_column? hc).2
  rw [Column.spelled_eq_iff ((mem_of_column? hd).2.trans hname.symm), hname] at hcolumn
  exact hcolumn.2

/-- A table is rebuilt for the spelling of types exactly if a column that both shapes have is
spelled with other words; otherwise it is rebuilt where it would be if all was spelled the same. -/
theorem rebuilds_spelled_iff (before after : Table) (f g : String → String) :
    (before.spelled f).Rebuilds (after.spelled g) ↔
      (∃ name, before.hasColumn name = true ∧ after.hasColumn name = true ∧
        ¬SameWords (f name) (g name)) ∨ (before.spelled g).Rebuilds (after.spelled g) := by
  rw [rebuilds_iff, rebuilds_iff, changeable_spelled_iff_sameWords]
  by_cases hother : ∃ name, before.hasColumn name = true ∧ after.hasColumn name = true ∧
      ¬SameWords (f name) (g name)
  · obtain ⟨name, hb, ha, hnot⟩ := hother
    refine iff_of_true ⟨fun hsame => ?_, fun h => hnot (h.2 name hb ha)⟩ (.inl ⟨name, hb, ha, hnot⟩)
    exact hnot (sameWords_of_spelled_eq hsame hb ha)
  · have hwords (name : String) (hb : before.hasColumn name = true)
        (ha : after.hasColumn name = true) : SameWords (f name) (g name) :=
      by_contra fun hnot => hother ⟨name, hb, ha, hnot⟩
    have heq : before.spelled f = after.spelled g ↔ before.spelled g = after.spelled g :=
      ⟨fun hsame => (spelled_eq_of_sameWords hwords hsame).symm.trans hsame,
        fun hsame => (spelled_eq_of_sameWords hwords hsame).trans hsame⟩
    rw [or_iff_right hother, and_iff_left hwords, ne_eq, heq]

/-- The type of the column of a name. -/
def typeOf (t : Table) (name : String) : String :=
  ((t.column? name).map Column.sqlType).getD ""

theorem spelled_eq_self {t : Table} (h : ∀ c ∈ t.columns, normalizeType (f c.name) = c.sqlType) :
    t.spelled f = t := by
  have hcolumns : t.columns.map (Column.spelled f) = t.columns.map id := by
    refine List.map_congr_left fun c hc => ?_
    rw [Column.spelled, h c hc, id]
  rw [spelled, hcolumns, List.map_id]

theorem typeOf_of_mem {t : Table} (hdistinct : (t.columns.map Column.name).Nodup) {c : Column}
    (hc : c ∈ t.columns) : t.typeOf c.name = c.sqlType := by
  rw [typeOf, (column?_eq_some_iff hdistinct).mpr ⟨hc, rfl⟩]
  rfl

/-- Types in normal form are spelled as they are. -/
theorem spelled_typeOf {t : Table} (hdistinct : (t.columns.map Column.name).Nodup)
    (hnormal : ∀ c ∈ t.columns, normalizeType c.sqlType = c.sqlType) : t.spelled t.typeOf = t := by
  refine spelled_eq_self fun c hc => ?_
  rw [typeOf_of_mem hdistinct hc]
  exact hnormal c hc

end Spelled

end Table

/-- What the changes for one name are: none where the two realms have the same under it, a table
that comes or goes, and a table that is rebuilt or changed in place. -/
theorem Realm.diffAt_cases (current desired : Realm) (name : String) :
    (current.tables.get? name = desired.tables.get? name ∧ current.diffAt desired name = []) ∨
    (∃ after, current.tables.get? name = none ∧ desired.tables.get? name = some after ∧
      current.diffAt desired name = [.addTable after]) ∨
    (∃ before, current.tables.get? name = some before ∧ desired.tables.get? name = none ∧
      current.diffAt desired name = [.dropTable name]) ∨
    (∃ before after, current.tables.get? name = some before ∧
      desired.tables.get? name = some after ∧ current.diffAt desired name =
        [.rebuildTable before after (Table.sharedColumns before after)]) ∨
    ∃ before after, current.tables.get? name = some before ∧
      desired.tables.get? name = some after ∧ Table.Changeable before after ∧
        current.diffAt desired name = Table.changesInPlace before after := by
  unfold diffAt
  cases current.tables.get? name with
  | none =>
      cases desired.tables.get? name with
      | none => exact .inl ⟨rfl, rfl⟩
      | some after => exact .inr (.inl ⟨after, rfl, rfl, rfl⟩)
  | some before =>
      cases desired.tables.get? name with
      | none => exact .inr (.inr (.inl ⟨before, rfl, rfl, rfl⟩))
      | some after =>
          by_cases hsame : before = after
          · exact .inl ⟨congrArg some hsame, if_pos hsame⟩
          · simp only [Table.diff, if_neg hsame]
            cases hrebuild : Table.needsRebuild before after with
            | true => exact .inr (.inr (.inr (.inl ⟨before, after, rfl, rfl, if_pos rfl⟩)))
            | false =>
                exact .inr (.inr (.inr (.inr ⟨before, after, rfl, rfl,
                  Table.needsRebuild_eq_false_iff.1 hrebuild, if_neg Bool.false_ne_true⟩)))

end ProjectHub
