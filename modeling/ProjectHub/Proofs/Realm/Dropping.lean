import ProjectHub.Proofs.Realm.CarryOut

/-!
# Where a column is dropped

At every point of a difference at which a column is dropped, the column is there,
it is in no key, and no index is left on it. What can be missing is another
column: a table that keeps none of its columns loses the last of them before it
gets any new one.
-/

namespace ProjectHub

/-! ## Points in a list of changes -/

section Points

variable {α β : Type}

/-- An element of the middle of three lists, found where it stands. -/
theorem exists_of_append_eq {a b c first second : List α} {x : α} (ha : x ∉ a) (hc : x ∉ c)
    (h : a ++ b ++ c = first ++ x :: second) :
    ∃ b₁ b₂, b = b₁ ++ x :: b₂ ∧ first = a ++ b₁ := by
  -- The cut is not inside `a`, where it would leave `x` in `a`, and likewise not inside `c`.
  have hleft : ∃ b₁, first = a ++ b₁ ∧ b ++ c = b₁ ++ x :: second := by
    rw [List.append_assoc, List.append_eq_append_iff] at h
    rcases h with ⟨b₁, hfirst, hrest⟩ | ⟨a₂, hcut, hrest⟩
    · exact ⟨b₁, hfirst, hrest⟩
    · cases a₂ with
      | nil => exact ⟨[], by simpa using hcut.symm, hrest.symm⟩
      | cons y a₂ =>
          cases hrest
          exact absurd (hcut ▸ List.mem_append_right _ List.mem_cons_self) ha
  obtain ⟨b₁, hfirst, hrest⟩ := hleft
  refine ⟨b₁, ?_⟩
  rw [List.append_eq_append_iff] at hrest
  rcases hrest with ⟨c₁, -, htail⟩ | ⟨b₂, hcut, htail⟩
  · exact absurd (htail ▸ List.mem_append_right _ List.mem_cons_self) hc
  · cases b₂ with
    | nil => exact absurd ((show x :: second = c from htail) ▸ List.mem_cons_self) hc
    | cons y b₂ =>
        cases htail
        exact ⟨b₂, hcut, hfirst⟩

/-- An element of lists put together stands in one of them, after those before it. -/
theorem exists_of_flatMap_eq {l : List α} {f : α → List β} {first second : List β} {x : β}
    (h : l.flatMap f = first ++ x :: second) :
    ∃ before a after first' second', l = before ++ a :: after ∧ f a = first' ++ x :: second' ∧
      first = before.flatMap f ++ first' := by
  induction l generalizing first with
  | nil => simp at h
  | cons a l ih =>
      rw [List.flatMap_cons, List.append_eq_append_iff] at h
      have hlater {first' : List β} (hfirst : first = f a ++ first')
          (hrest : l.flatMap f = first' ++ x :: second) :
          ∃ before b after first' second', a :: l = before ++ b :: after ∧
            f b = first' ++ x :: second' ∧ first = before.flatMap f ++ first' := by
        obtain ⟨before, b, after, first'', second', rfl, hb, rfl⟩ := ih hrest
        exact ⟨a :: before, b, after, first'', second', rfl, hb, by simp [hfirst]⟩
      rcases h with ⟨first', hfirst, hrest⟩ | ⟨own, hown, hrest⟩
      · exact hlater hfirst hrest
      · cases own with
        | nil => exact hlater (show first = f a ++ [] by simpa using hown.symm) hrest.symm
        | cons y own =>
            cases hrest
            exact ⟨[], a, l, first, own, rfl, hown, rfl⟩

end Points

/-! ## The table at such a point -/

namespace Table

/-- A table in which nothing but the column itself stands in the way of its drop. -/
structure Spares (t : Table) (column : String) : Prop where
  there : t.hasColumn column = true
  key : column ∉ t.primaryKey
  indexed : ∀ {name index}, t.indexes.get? name = some index → column ∉ index.columns

/-- Whether a table has another column. -/
def KeepsOther (t : Table) (column : String) : Prop :=
  ∃ other, other ≠ column ∧ t.hasColumn other = true

/-- A table that has columns, and none of them in its new shape. -/
def IsEmptied (before after : Table) : Prop :=
  before.columns ≠ [] ∧ ∀ c ∈ before.columns, after.hasColumn c.name = false

instance (before after : Table) : Decidable (before.IsEmptied after) :=
  inferInstanceAs (Decidable (_ ∧ _))

variable {before after : Table} {column : String} {dropped left : List String}

/-- Before a column is dropped in place, the lost indexes and the lost columns before it are. -/
theorem exists_of_changesInPlace_eq {table : String} {first second : List SchemaChange}
    (h : changesInPlace before after = first ++ .dropColumn table column :: second) :
    table = after.name ∧ ∃ dropped left, lostColumns before after = dropped ++ column :: left ∧
      first = narrowing before after dropped := by
  rw [changesInPlace_eq, List.append_assoc] at h
  obtain ⟨b₁, b₂, hb, hfirst⟩ := exists_of_append_eq (by simp) (by simp) h
  obtain ⟨dropped, others, hlost, rfl, hothers⟩ := List.map_eq_append_iff.1 hb
  obtain ⟨name, left, rfl, hname, -⟩ := List.map_eq_cons_iff.1 hothers
  obtain ⟨rfl, rfl⟩ := SchemaChange.dropColumn.inj hname
  exact ⟨rfl, dropped, left, hlost, hfirst⟩

theorem hasColumn_narrowed {name : String} :
    (narrowed before after dropped).hasColumn name = true ↔
      before.hasColumn name = true ∧ name ∉ dropped := by
  simp only [hasColumn_iff, narrowed, List.mem_filter, decide_eq_true_eq]
  constructor
  · rintro ⟨c, ⟨hc, hnot⟩, rfl⟩
    exact ⟨⟨c, hc, rfl⟩, hnot⟩
  · rintro ⟨⟨c, hc, rfl⟩, hnot⟩
    exact ⟨c, ⟨hc, hnot⟩, rfl⟩

section

variable (h : Changeable before after) (ha : after.WellFormed)
include h ha

theorem Changeable.spares_narrowed (hb : (before.columns.map Column.name).Nodup)
    (hlost : lostColumns before after = dropped ++ column :: left) :
    (narrowed before after dropped).Spares column := by
  obtain ⟨hbefore, hafter⟩ : before.hasColumn column = true ∧ after.hasColumn column = false :=
    mem_lostColumns_iff.1 (hlost ▸ List.mem_append_right _ List.mem_cons_self)
  have hnew {name : String} (hname : after.hasColumn name = true) : name ≠ column := by
    rintro rfl
    rw [hafter] at hname
    cases hname
  have hnodup := lostColumns_nodup after hb
  rw [hlost] at hnodup
  refine ⟨hasColumn_narrowed.2 ⟨hbefore, fun hmem => ?_⟩, fun hkey => ?_, fun {name index} hi hc => ?_⟩
  · exact (List.nodup_append.1 hnodup).2.2 column hmem column List.mem_cons_self rfl
  · exact hnew (ha.key column (h.primaryKey ▸ hkey)) rfl
  · obtain ⟨hi, hstays⟩ : before.indexes.get? name = some index ∧ name ∉ lostIndexes before after := by
      simpa [narrowed, NameMap.get?_filter, Option.filter_eq_some_iff] using hi
    -- An index that is left is in the new shape, and so on columns of that.
    have hkept : after.indexes.get? name = some index := by
      by_contra hgone
      exact hstays (mem_lostIndexes_iff.2 ⟨index, hi, hgone⟩)
    exact hnew (ha.indexed hkept column hc) rfl

theorem Changeable.key_narrowed (hkey : ∀ name ∈ before.primaryKey, before.hasColumn name = true)
    (hlost : lostColumns before after = dropped ++ left) :
    ∀ name ∈ (narrowed before after dropped).primaryKey,
      (narrowed before after dropped).hasColumn name = true := by
  intro name hname
  refine hasColumn_narrowed.2 ⟨hkey name hname, fun hmem => ?_⟩
  have hgone := (mem_lostColumns_iff.1 (hlost ▸ List.mem_append_left left hmem)).2
  rw [ha.key name (h.primaryKey ▸ hname)] at hgone
  cases hgone

end

/-- Another column is left at such a point just if one more is dropped or one stays. -/
theorem keepsOther_narrowed_iff (hb : (before.columns.map Column.name).Nodup)
    (hlost : lostColumns before after = dropped ++ column :: left) :
    (narrowed before after dropped).KeepsOther column ↔
      left ≠ [] ∨ ∃ c ∈ before.columns, after.hasColumn c.name = true := by
  have hnodup := lostColumns_nodup after hb
  rw [hlost] at hnodup
  obtain ⟨-, hrest, hapart⟩ := List.nodup_append.1 hnodup
  constructor
  · rintro ⟨other, hne, hother⟩
    obtain ⟨hbefore, hstays⟩ := hasColumn_narrowed.1 hother
    cases hafter : after.hasColumn other with
    | true =>
        obtain ⟨c, hc, rfl⟩ := hasColumn_iff.1 hbefore
        exact .inr ⟨c, hc, hafter⟩
    | false =>
        have hmem : other ∈ dropped ++ column :: left :=
          hlost ▸ mem_lostColumns_iff.2 ⟨hbefore, hafter⟩
        have hleft : other ∈ left := by simpa [hstays, hne] using hmem
        exact .inl (List.ne_nil_of_mem hleft)
  · rintro (hleft | ⟨c, hc, hafter⟩)
    · obtain ⟨other, hother⟩ := List.exists_mem_of_ne_nil left hleft
      have hmem : other ∈ column :: left := List.mem_cons_of_mem _ hother
      refine ⟨other, ?_, hasColumn_narrowed.2 ⟨?_, fun hdropped => hapart other hdropped other hmem rfl⟩⟩
      · rintro rfl
        exact (List.nodup_cons.1 hrest).1 hother
      · exact (mem_lostColumns_iff.1 (hlost ▸ List.mem_append_right _ hmem)).1
    · have hnot {name : String} (hname : name ∈ dropped ++ column :: left) : c.name ≠ name := by
        rintro rfl
        rw [(mem_lostColumns_iff.1 (hlost ▸ hname)).2] at hafter
        cases hafter
      refine ⟨c.name, hnot (List.mem_append_right _ List.mem_cons_self),
        hasColumn_narrowed.2 ⟨hasColumn_iff.2 ⟨c, hc, rfl⟩, fun hdropped => ?_⟩⟩
      exact hnot (List.mem_append_left _ hdropped) rfl

theorem lostColumns_of_isEmptied (h : before.IsEmptied after) :
    ∃ dropped column, lostColumns before after = dropped ++ [column] := by
  have hall : lostColumns before after = before.columns.map Column.name := by
    rw [lostColumns, List.filter_eq_self.2 fun c hc => by rw [h.2 c hc]; rfl]
  rw [hall]
  obtain ⟨columns, c, hcolumns⟩ := (List.eq_nil_or_concat before.columns).resolve_left h.1
  exact ⟨columns.map Column.name, c.name, by simp [hcolumns]⟩

end Table

/-! ## The realm at such a point -/

namespace Realm

/-- A point of a difference at which a column is dropped: the tables of some names are done, and
of the columns that the table in hand loses some are dropped and some are left. -/
structure DropsAt (current desired : Realm) (done : List SchemaChange) (table column : String)
    (names : List String) (before after : Table) (dropped left : List String) : Prop where
  distinct : names.Nodup
  later : table ∉ names
  old : current.tables.get? table = some before
  new : desired.tables.get? table = some after
  inPlace : Table.Changeable before after
  lost : Table.lostColumns before after = dropped ++ column :: left
  eq : done = names.flatMap (current.diffAt desired) ++ Table.narrowing before after dropped

variable {current desired : Realm} {table column : String} {names : List String}
  {before after : Table} {dropped left : List String} {done : List SchemaChange}

/-- Where a difference drops a column, a table is changed in place. -/
theorem exists_of_diffAt_eq (hd : desired.WellFormed) {name : String}
    {first second : List SchemaChange}
    (h : current.diffAt desired name = first ++ .dropColumn table column :: second) :
    table = name ∧ ∃ before after dropped left, current.tables.get? name = some before ∧
      desired.tables.get? name = some after ∧ Table.Changeable before after ∧
      Table.lostColumns before after = dropped ++ column :: left ∧
      first = Table.narrowing before after dropped := by
  have hmem : SchemaChange.dropColumn table column ∈ current.diffAt desired name :=
    h ▸ List.mem_append_right _ List.mem_cons_self
  rcases diffAt_cases current desired name with ⟨-, hnone⟩ | ⟨after, -, -, hadd⟩ |
    ⟨before, -, -, hdrop⟩ | ⟨before, after, -, -, hrebuild⟩ |
    ⟨before, after, hbefore, hafter, hchangeable, hat⟩
  · simp [hnone] at hmem
  · simp [hadd] at hmem
  · simp [hdrop] at hmem
  · simp [hrebuild] at hmem
  · rw [hat] at h
    obtain ⟨rfl, dropped, left, hlost, hfirst⟩ := Table.exists_of_changesInPlace_eq h
    exact ⟨hd.ownName hafter, before, after, dropped, left, hbefore, hafter, hchangeable, hlost,
      hfirst⟩

theorem distinct_of_allKeys_eq {others : List String}
    (h : current.tables.allKeys desired.tables = names ++ table :: others) :
    names.Nodup ∧ table ∉ names := by
  have hdistinct := NameMap.allKeys_nodup current.tables desired.tables
  rw [h] at hdistinct
  obtain ⟨hfirst, -, hapart⟩ := List.nodup_append.1 hdistinct
  exact ⟨hfirst, fun hmem => hapart table hmem table List.mem_cons_self rfl⟩

/-- Every drop of a column stands at such a point. -/
theorem dropsAt_of_diff_eq (hd : desired.WellFormed) {done rest : List SchemaChange}
    (h : current.diff desired = done ++ .dropColumn table column :: rest) :
    ∃ names before after dropped left,
      DropsAt current desired done table column names before after dropped left := by
  obtain ⟨names, name, others, first, second, hnames, hname, rfl⟩ := exists_of_flatMap_eq h
  obtain ⟨rfl, before, after, dropped, left, hbefore, hafter, hchangeable, hlost, rfl⟩ :=
    exists_of_diffAt_eq hd hname
  obtain ⟨hdistinct, hlater⟩ := distinct_of_allKeys_eq hnames
  exact ⟨names, before, after, dropped, left, hdistinct, hlater, hbefore, hafter, hchangeable, hlost,
    rfl⟩

/-- Every column that a table loses in place is dropped at such a point. -/
theorem exists_diff_eq (hd : desired.WellFormed) (hbefore : current.tables.get? table = some before)
    (hafter : desired.tables.get? table = some after) (hchangeable : Table.Changeable before after)
    (hlost : Table.lostColumns before after = dropped ++ column :: left) :
    ∃ done rest, current.diff desired = done ++ .dropColumn table column :: rest ∧
      ∃ names, DropsAt current desired done table column names before after dropped left := by
  have hmem : table ∈ current.tables.allKeys desired.tables := by
    rw [NameMap.mem_allKeys_iff, hbefore]
    exact .inl rfl
  obtain ⟨names, others, hnames⟩ := List.append_of_mem hmem
  have hne : before ≠ after := by
    rintro rfl
    obtain ⟨hthere, hgone⟩ := Table.mem_lostColumns_iff.1
      (hlost ▸ List.mem_append_right dropped List.mem_cons_self)
    rw [hthere] at hgone
    cases hgone
  obtain ⟨second, hat⟩ : ∃ second, current.diffAt desired table =
      Table.narrowing before after dropped ++ .dropColumn table column :: second := by
    have hown := hd.ownName hafter
    simp only [diffAt, hbefore, hafter, Table.diff, if_neg hne,
      Table.needsRebuild_eq_false_iff.2 hchangeable, Bool.false_eq_true, if_false]
    rw [Table.changesInPlace_eq, hlost, Table.narrowing, hown]
    simp only [List.map_append, List.map_cons, List.append_assoc, List.cons_append]
    exact ⟨_, rfl⟩
  obtain ⟨hdistinct, hlater⟩ := distinct_of_allKeys_eq hnames
  refine ⟨names.flatMap (current.diffAt desired) ++ Table.narrowing before after dropped,
    second ++ others.flatMap (current.diffAt desired), ?_, names, hdistinct, hlater, hbefore, hafter,
    hchangeable, hlost, rfl⟩
  rw [diff, hnames, List.flatMap_append, List.flatMap_cons, hat]
  simp only [List.append_assoc, List.cons_append]

/-- What is carried out up to such a point. -/
theorem DropsAt.carryOutAll? (hc : current.WellFormed) (hd : desired.WellFormed)
    (h : DropsAt current desired done table column names before after dropped left) :
    ∃ reached, current.carryOutAll? done = some reached ∧
      reached.tables.get? table = some (Table.narrowed before after dropped) := by
  obtain ⟨r, hr, -, hkept⟩ := carryOutAll?_flatMap hc hd names h.distinct fun _ _ => rfl
  have htable : ∀ change ∈ Table.narrowing before after dropped, change.table = table := by
    intro change hchange
    rcases Table.mem_narrowing hchange with ⟨_, rfl⟩ | ⟨_, rfl⟩ <;> exact hd.ownName h.new
  refine ⟨_, ?_, NameMap.get?_insert_self r.tables table _⟩
  rw [h.eq, Realm.carryOutAll?, List.foldlM_append]
  exact Option.bind_eq_some_iff.2 ⟨r, hr, carryOutAll?_of_changes _ htable
    ((hkept table h.later).trans h.old)
    (Table.narrowing_changes (hc.tables h.old).distinct h.lost)⟩

theorem DropsAt.eq_narrowed (hc : current.WellFormed) (hd : desired.WellFormed)
    (h : DropsAt current desired done table column names before after dropped left) {reached : Realm}
    {t : Table} (hreached : current.carryOutAll? done = some reached)
    (ht : reached.tables.get? table = some t) : t = Table.narrowed before after dropped := by
  obtain ⟨other, hother, hnarrowed⟩ := h.carryOutAll? hc hd
  rw [hreached] at hother
  cases hother
  exact Option.some.inj (ht.symm.trans hnarrowed)

/-! ## When another column is left -/

/-- Whether every table with columns that is changed in place keeps one of them. -/
def KeepsColumns (current desired : Realm) : Prop :=
  ∀ name before after, current.tables.get? name = some before →
    desired.tables.get? name = some after → Table.needsRebuild before after = false →
      ¬before.IsEmptied after

instance (current desired : Realm) : Decidable (current.KeepsColumns desired) :=
  decidable_of_iff (∀ e ∈ current.tables.toList, ∀ after ∈ desired.tables.get? e.1,
      Table.needsRebuild e.2 after = false → ¬e.2.IsEmptied after)
    ⟨fun h name before after hbefore hafter =>
        h (name, before) (NameMap.mem_toList_iff.2 hbefore) after hafter,
      fun h e he after hafter => h e.1 e.2 after (NameMap.mem_toList_iff.1 he) hafter⟩

section

variable (hcurrent : current.WellFormed) (hdesired : desired.WellFormed)
include hcurrent hdesired

/-- Another column is left wherever one is dropped, just if no table that is changed in place loses
all its columns. -/
theorem keepsOther_iff_keepsColumns :
    (∀ done rest table column reached t,
      current.diff desired = done ++ .dropColumn table column :: rest →
        current.carryOutAll? done = some reached → reached.tables.get? table = some t →
          t.KeepsOther column) ↔
      current.KeepsColumns desired := by
  constructor
  · intro h name before after hbefore hafter hinPlace hempty
    -- An emptied table has nothing left when the last of its columns is dropped.
    obtain ⟨dropped, column, hlost⟩ := Table.lostColumns_of_isEmptied hempty
    obtain ⟨done, rest, hdiff, names, hpoint⟩ := exists_diff_eq hdesired hbefore hafter
      (Table.needsRebuild_eq_false_iff.1 hinPlace) hlost
    obtain ⟨reached, hreached, ht⟩ := hpoint.carryOutAll? hcurrent hdesired
    have hother := h done rest name column reached _ hdiff hreached ht
    rcases (Table.keepsOther_narrowed_iff (hcurrent.tables hbefore).distinct hlost).1 hother with
      hleft | ⟨c, hc, hkept⟩
    · exact hleft rfl
    · rw [hempty.2 c hc] at hkept
      cases hkept
  · intro h done rest table column reached t hdiff hreached ht
    obtain ⟨names, before, after, dropped, left, hpoint⟩ := dropsAt_of_diff_eq hdesired hdiff
    have hdistinct := (hcurrent.tables hpoint.old).distinct
    rw [hpoint.eq_narrowed hcurrent hdesired hreached ht,
      Table.keepsOther_narrowed_iff hdistinct hpoint.lost]
    by_contra hnone
    obtain ⟨-, hnone⟩ := not_or.1 hnone
    have hthere := (Table.mem_lostColumns_iff.1
      (hpoint.lost ▸ List.mem_append_right dropped List.mem_cons_self)).1
    obtain ⟨c, hc, -⟩ := Table.hasColumn_iff.1 hthere
    refine h table before after hpoint.old hpoint.new
      (Table.needsRebuild_eq_false_iff.2 hpoint.inPlace) ⟨List.ne_nil_of_mem hc, fun d hd => ?_⟩
    rw [Bool.eq_false_iff]
    exact fun hkept => hnone ⟨d, hd, hkept⟩

end

end Realm

end ProjectHub
