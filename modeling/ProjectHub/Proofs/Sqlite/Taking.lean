import ProjectHub.Proofs.Sqlite.Holding

/-!
# Names taken for one table

The statements for one table make what is held for it what the wanted table
holds, and leave all else. They take free names just if nothing that is held for
other tables has the names of the wanted table; a table that is built anew needs
its temporary name besides.
-/

namespace ProjectHub

open Sqlite
open Sql (Statement)
open Sql.Statement (takeFree)

/-- The holders of the names of a table: itself and its indexes. -/
def Table.holders (t : Table) : List Holder :=
  .table t.name :: t.indexes.values.map fun i => .index i.name t.name

/-! ## Tidy names -/

namespace Sqlite

/-- Holders of which no two have one name, with the table of each. -/
structure Tidy (held : List Holder) : Prop where
  distinct : ∀ a ∈ held, ∀ b ∈ held, sameName a.name b.name = true → a = b
  housed : ∀ a ∈ held, Holder.table a.home ∈ held

/-- In tidy holders, tables of one name in any case are one. -/
theorem Tidy.home_eq {held : List Holder} (h : Tidy held) {a : Holder} (ha : a ∈ held)
    {name : String} (hname : Holder.table name ∈ held) (hsame : sameName a.home name = true) :
    a.home = name := by
  have heq := h.distinct _ (h.housed a ha) _ hname hsame
  injection heq

end Sqlite

namespace Table

variable {t : Table} {h : Holder}

theorem home_of_mem_holders (hh : h ∈ t.holders) : h.home = t.name := by
  rw [holders, List.mem_cons, List.mem_map] at hh
  rcases hh with rfl | ⟨i, -, rfl⟩ <;> rfl

theorem table_mem_holders (t : Table) : Holder.table t.name ∈ t.holders :=
  List.mem_cons_self

theorem index_mem_holders_iff {name owner : String} :
    Holder.index name owner ∈ t.holders ↔
      owner = t.name ∧ ∃ i ∈ t.indexes.values, i.name = name := by
  simp only [holders, List.mem_cons, List.mem_map, reduceCtorEq, false_or, Holder.index.injEq]
  constructor
  · rintro ⟨i, hi, hname, rfl⟩
    exact ⟨rfl, i, hi, hname⟩
  · rintro ⟨rfl, i, hi, hname⟩
    exact ⟨i, hi, hname, rfl⟩

end Table

/-! ## Statements of one kind -/

namespace Sql.Statement

variable {held : List Holder} {table : String}

/-- The statements that create indexes take their names, one after the other. -/
theorem takeFree_createIndexes {indexes : List Index}
    (hdistinct : (indexes.map fun i => Text.lowerAscii i.name).Nodup) :
    takeFree held (indexes.map (createIndex table)) = true ↔
      ∀ i ∈ indexes, isHeld held i.name = false := by
  induction indexes generalizing held with
  | nil => simp [takeFree]
  | cons i indexes ih =>
      obtain ⟨hother, hdistinct⟩ := List.nodup_cons.mp hdistinct
      have hheld : ∀ j ∈ indexes,
          isHeld (held ++ [.index i.name table]) j.name = isHeld held j.name := by
        intro j hj
        have hne : sameName i.name j.name = false := by
          rw [Bool.eq_false_iff, Ne, sameName_iff]
          exact fun same => hother (List.mem_map.mpr ⟨j, hj, same.symm⟩)
        rw [isHeld_append]
        simp [isHeld, Holder.name, hne]
      have hrest : (∀ j ∈ indexes, isHeld (held ++ [.index i.name table]) j.name = false) ↔
          ∀ j ∈ indexes, isHeld held j.name = false :=
        forall₂_congr fun j hj => by rw [hheld j hj]
      rw [List.map_cons, takeFree, Bool.and_eq_true, holders, ih hdistinct, hrest]
      simp [taken?]

theorem foldl_createIndexes (indexes : List Index) :
    (indexes.map (createIndex table)).foldl holders held =
      held ++ indexes.map fun i => .index i.name table := by
  induction indexes generalizing held with
  | nil => simp
  | cons i indexes ih => rw [List.map_cons, List.foldl_cons, ih, holders, List.append_assoc]; rfl

theorem mem_foldl_dropIndexes {names : List String} {h : Holder} :
    h ∈ (names.map dropIndex).foldl holders held ↔
      h ∈ held ∧ (h.isIndex = true → ∀ name ∈ names, sameName h.name name = false) := by
  induction names generalizing held with
  | nil => simp
  | cons name names ih =>
      rw [List.map_cons, List.foldl_cons, ih, holders, List.mem_filter]
      cases h.isIndex <;> simp [and_assoc]

theorem foldl_holders_of_forall {statements : List Statement}
    (h : ∀ statement ∈ statements, ∀ held, statement.holders held = held) :
    statements.foldl holders held = held := by
  induction statements with
  | nil => rfl
  | cons statement statements ih =>
      rw [List.foldl_cons, h statement List.mem_cons_self]
      exact ih fun other hother => h other (List.mem_cons_of_mem _ hother)

end Sql.Statement

/-! ## The statements for one table -/

theorem Sqlite.Holder.renamed_of_ne {h : Holder} {old new : String}
    (hne : sameName h.home old = false) : h.renamed old new = h := by
  cases h <;> simp_all [renamed, home]

namespace Table

/-- What is held for the name of a table is what the table holds. -/
def Stands (t : Table) (held : List Holder) : Prop :=
  ∀ h : Holder, h.home = t.name → (h ∈ held ↔ h ∈ t.holders)

/-- What a table holds has other names than what is held for other tables. -/
def Apart (t : Table) (held : List Holder) : Prop :=
  ∀ h ∈ t.holders, ∀ other ∈ held, other.home ≠ t.name → sameName other.name h.name = false

section Creation

variable {t : Table} {held base : List Holder} {gained : List Index}
  (hdistinct : (t.holders.map fun h => Text.lowerAscii h.name).Nodup)
  (hgained : gained.Sublist t.indexes.values)
  (hbase : ∀ h, h ∈ base ↔ (h ∈ held ∧ h.home ≠ t.name) ∨
    (h ∈ t.holders ∧ ∀ i ∈ gained, h ≠ .index i.name t.name))
include hgained hbase

/-- Where all is there that the table holds but some indexes, the statements that create these
complete it. -/
theorem mem_foldl_createIndexes (h : Holder) :
    h ∈ (gained.map (Statement.createIndex t.name)).foldl Statement.holders base ↔
      (h ∈ held ∧ h.home ≠ t.name) ∨ h ∈ t.holders := by
  have hcreated : ∀ i ∈ gained, Holder.index i.name t.name ∈ t.holders := fun i hi =>
    index_mem_holders_iff.mpr ⟨rfl, i, hgained.subset hi, rfl⟩
  rw [Statement.foldl_createIndexes, List.mem_append, hbase, List.mem_map]
  constructor
  · rintro ((hheld | ⟨hown, -⟩) | ⟨i, hi, rfl⟩)
    · exact .inl hheld
    · exact .inr hown
    · exact .inr (hcreated i hi)
  · rintro (hheld | hown)
    · exact .inl (.inl hheld)
    · by_cases hnew : ∃ i ∈ gained, .index i.name t.name = h
      · exact .inr hnew
      · push Not at hnew
        exact .inl (.inr ⟨hown, fun i hi same => hnew i hi same.symm⟩)

include hdistinct

/-- These statements take free names just if nothing else that is held has the names of the
indexes. -/
theorem takeFree_createIndexes_iff :
    takeFree base (gained.map (Statement.createIndex t.name)) = true ↔
      ∀ i ∈ gained, ∀ other ∈ held, other.home ≠ t.name → sameName other.name i.name = false := by
  have hnames : (gained.map fun i => Text.lowerAscii i.name).Nodup := by
    refine List.Nodup.sublist (hgained.map _) ?_
    have htail := (List.nodup_cons.mp hdistinct).2
    rwa [List.map_map] at htail
  rw [Statement.takeFree_createIndexes hnames]
  refine forall₂_congr fun i hi => ?_
  have hi' : Holder.index i.name t.name ∈ t.holders :=
    index_mem_holders_iff.mpr ⟨rfl, i, hgained.subset hi, rfl⟩
  rw [isHeld_eq_false_iff]
  constructor
  · exact fun hfree other hother hhome => hfree other ((hbase other).mpr (.inl ⟨hother, hhome⟩))
  · intro hfree h hh
    rcases (hbase h).mp hh with ⟨hother, hhome⟩ | ⟨hown, hold⟩
    · exact hfree h hother hhome
    · rw [Bool.eq_false_iff]
      intro hsame
      exact hold i hi (List.inj_on_of_nodup_map hdistinct hown hi' (sameName_iff.mp hsame))

end Creation

theorem forall_ne_index_iff {t : Table} {h : Holder} (hh : h ∈ t.holders) :
    (∀ i ∈ t.indexes.values, h ≠ .index i.name t.name) ↔ h = .table t.name := by
  rw [holders, List.mem_cons, List.mem_map] at hh
  rcases hh with rfl | ⟨i, hi, rfl⟩
  · simp
  · constructor
    · intro hnot
      exact absurd rfl (hnot i hi)
    · intro heq
      cases heq

/-! ### A new table -/

section Add

variable {t : Table} {held : List Holder} (hnone : ∀ h ∈ held, h.home ≠ t.name)
include hnone

theorem mem_append_table_iff (h : Holder) :
    h ∈ held ++ [.table t.name] ↔ (h ∈ held ∧ h.home ≠ t.name) ∨
      (h ∈ t.holders ∧ ∀ i ∈ t.indexes.values, h ≠ .index i.name t.name) := by
  rw [List.mem_append, List.mem_singleton]
  constructor
  · rintro (hheld | rfl)
    · exact .inl ⟨hheld, hnone h hheld⟩
    · exact .inr ⟨t.table_mem_holders, (forall_ne_index_iff t.table_mem_holders).mpr rfl⟩
  · rintro (⟨hheld, -⟩ | ⟨hown, hnot⟩)
    · exact .inl hheld
    · exact .inr ((forall_ne_index_iff hown).mp hnot)

theorem mem_foldl_addTable (h : Holder) :
    h ∈ (Statement.ofChange (.addTable t)).foldl Statement.holders held ↔
      (h ∈ held ∧ h.home ≠ t.name) ∨ h ∈ t.holders :=
  mem_foldl_createIndexes (.refl _) (mem_append_table_iff hnone) h

theorem takeFree_addTable_iff (hdistinct : (t.holders.map fun h => Text.lowerAscii h.name).Nodup) :
    takeFree held (Statement.ofChange (.addTable t)) = true ↔ t.Apart held := by
  have hindexes := takeFree_createIndexes_iff hdistinct (.refl _) (mem_append_table_iff hnone)
  have hfirst : takeFree held (Statement.ofChange (.addTable t)) =
      (!isHeld held t.name &&
        takeFree (held ++ [.table t.name]) (t.indexes.values.map (Statement.createIndex t.name))) :=
    rfl
  rw [hfirst, Bool.and_eq_true, hindexes, Bool.not_eq_true', isHeld_eq_false_iff]
  constructor
  · rintro ⟨htable, hindex⟩ h hh other hother hhome
    rw [holders, List.mem_cons, List.mem_map] at hh
    rcases hh with rfl | ⟨i, hi, rfl⟩
    · exact htable other hother
    · exact hindex i hi other hother hhome
  · intro hapart
    refine ⟨fun other hother => hapart _ t.table_mem_holders other hother (hnone other hother), ?_⟩
    intro i hi other hother hhome
    exact hapart _ (index_mem_holders_iff.mpr ⟨rfl, i, hi, rfl⟩) other hother hhome

end Add

/-! ### What the statements of a change are -/

section Change

variable {before after : Table} {held : List Holder}

/-- The holders when the new table has taken the place of the old one, before its indexes are
created. -/
def rebuiltHolders (held : List Holder) (name : String) : List Holder :=
  (Statement.renameTable (Statement.rebuildName name) name).holders
    ((Statement.dropTable name).holders (held ++ [.table (Statement.rebuildName name)]))

theorem takeFree_rebuildTable_eq (columns : List String) :
    takeFree held (Statement.ofChange (.rebuildTable before after columns)) =
        (!isHeld held (Statement.rebuildName after.name) &&
          (!isHeld ((Statement.dropTable after.name).holders
              (held ++ [.table (Statement.rebuildName after.name)])) after.name &&
            takeFree (rebuiltHolders held after.name)
              (after.indexes.values.map (Statement.createIndex after.name)))) ∧
      (Statement.ofChange (.rebuildTable before after columns)).foldl Statement.holders held =
        (after.indexes.values.map (Statement.createIndex after.name)).foldl Statement.holders
          (rebuiltHolders held after.name) := by
  cases hcolumns : columns.isEmpty <;>
    simp [Statement.ofChange, hcolumns, takeFree, Statement.taken?, Statement.holders,
      Statement.createIndexes, rebuiltHolders]

theorem index_mem_iff {t : Table} (ht : t.WellFormed) {name : String} :
    Holder.index name t.name ∈ t.holders ↔ ∃ i, t.indexes.get? name = some i := by
  simp only [index_mem_holders_iff, NameMap.mem_values_iff, true_and]
  constructor
  · rintro ⟨i, ⟨key, hi⟩, rfl⟩
    obtain rfl := ht.ownName hi
    exact ⟨i, hi⟩
  · rintro ⟨i, hi⟩
    exact ⟨i, ⟨name, hi⟩, ht.ownName hi⟩

/-- The indexes that a change in place creates. -/
def createdIndexes (before after : Table) : List Index :=
  (gainedIndexes before after).map Prod.snd

theorem mem_createdIndexes_iff (hafter : after.WellFormed) {i : Index} :
    i ∈ createdIndexes before after ↔
      after.indexes.get? i.name = some i ∧ before.indexes.get? i.name ≠ some i := by
  rw [createdIndexes, List.mem_map]
  constructor
  · rintro ⟨e, he, rfl⟩
    obtain ⟨hthere, hnew⟩ := mem_gainedIndexes_iff.mp he
    rw [hafter.ownName hthere]
    exact ⟨hthere, hnew⟩
  · intro hi
    exact ⟨(i.name, i), mem_gainedIndexes_iff.mpr hi, rfl⟩

theorem sublist_createdIndexes :
    (createdIndexes before after).Sublist after.indexes.values :=
  List.filter_sublist.map _

theorem ofChanges_changesInPlace (before after : Table) :
    ∃ columns, (∀ statement ∈ columns, statement.taken? = none ∧
        ∀ held, statement.holders held = held) ∧
      Statement.ofChanges (changesInPlace before after) =
        (lostIndexes before after).map Statement.dropIndex ++ (columns ++
          (createdIndexes before after).map (Statement.createIndex after.name)) := by
  refine ⟨(lostColumns before after).map (Statement.dropColumn after.name) ++
    (gainedColumns before after).map (Statement.addColumn after.name), ?_, ?_⟩
  · intro statement hstatement
    simp only [List.mem_append, List.mem_map] at hstatement
    rcases hstatement with ⟨column, -, rfl⟩ | ⟨column, -, rfl⟩ <;> exact ⟨rfl, fun _ => rfl⟩
  · simp only [Statement.ofChanges, changesInPlace_eq, List.flatMap_append, List.flatMap_map,
      List.append_assoc, Statement.ofChange, createdIndexes, List.map_map]
    simp only [List.map_eq_flatMap]
    rfl

/-- Whether the difference of two tables is to build the table anew. -/
def isRebuilt (before after : Table) : Bool :=
  before ≠ after && needsRebuild before after

end Change

/-! ### A table that is there -/

section There

variable {held : List Holder} (htidy : Tidy held) {before after : Table}
  (hstands : before.Stands held) (hname : before.name = after.name)

include hstands hname in
theorem table_mem_held : Holder.table after.name ∈ held := by
  rw [← hname]
  exact (hstands _ rfl).mpr before.table_mem_holders

include htidy hstands hname

theorem home_eq_iff {h : Holder} (hh : h ∈ held) :
    sameName h.home after.name = true ↔ h.home = after.name := by
  constructor
  · exact htidy.home_eq hh (table_mem_held hstands hname)
  · intro heq
    rw [heq, sameName_self]

/-- Nothing held for another table has the name of something the table holds already. -/
theorem ne_of_mem_holders {h other : Holder} (hh : h ∈ before.holders) (hother : other ∈ held)
    (hhome : other.home ≠ after.name) : sameName other.name h.name = false := by
  rw [Bool.eq_false_iff]
  intro hsame
  have hhome' : h.home = before.name := home_of_mem_holders hh
  have heq := htidy.distinct other hother h ((hstands h hhome').mpr hh) hsame
  rw [heq, hhome'] at hhome
  exact hhome hname

theorem apart_iff :
    after.Apart held ↔ ∀ i ∈ after.indexes.values, ∀ other ∈ held, other.home ≠ after.name →
      sameName other.name i.name = false := by
  constructor
  · intro hapart i hi
    exact hapart (.index i.name after.name) (index_mem_holders_iff.mpr ⟨rfl, i, hi, rfl⟩)
  · intro hindex h hh other hother hhome
    rw [holders, List.mem_cons, List.mem_map] at hh
    rcases hh with rfl | ⟨i, hi, rfl⟩
    · have htable := ne_of_mem_holders htidy hstands hname before.table_mem_holders hother hhome
      rwa [hname] at htable
    · exact hindex i hi other hother hhome

theorem mem_holders_dropTable (h : Holder) :
    h ∈ (Statement.dropTable after.name).holders held ↔ h ∈ held ∧ h.home ≠ after.name := by
  rw [Statement.holders, List.mem_filter]
  refine and_congr_right fun hh => ?_
  rw [Bool.not_eq_true', Bool.eq_false_iff, Ne, home_eq_iff htidy hstands hname hh]

/-! ### A rebuilt table -/

section Temporary

variable (hfree : isHeld held (Statement.rebuildName after.name) = false)
include hfree

theorem mem_dropTable_temporary (h : Holder) :
    h ∈ (Statement.dropTable after.name).holders
        (held ++ [.table (Statement.rebuildName after.name)]) ↔
      (h ∈ held ∧ h.home ≠ after.name) ∨ h = .table (Statement.rebuildName after.name) := by
  have hother : sameName (Statement.rebuildName after.name) after.name = false := by
    rw [sameName_comm]
    exact sameName_table_of_free hfree (table_mem_held hstands hname)
  have hdrop := mem_holders_dropTable htidy hstands hname h
  rw [Statement.holders, List.mem_filter] at hdrop ⊢
  rw [List.mem_append, List.mem_singleton, or_and_right, hdrop]
  refine or_congr_right (and_iff_left_of_imp ?_)
  rintro rfl
  simpa [Holder.home] using hother

theorem isHeld_dropTable_temporary :
    isHeld ((Statement.dropTable after.name).holders
      (held ++ [.table (Statement.rebuildName after.name)])) after.name = false := by
  rw [isHeld_eq_false_iff]
  intro h hh
  rcases (mem_dropTable_temporary htidy hstands hname hfree h).mp hh with ⟨hheld, hhome⟩ | rfl
  · have hne := ne_of_mem_holders htidy hstands hname before.table_mem_holders hheld hhome
    rwa [hname] at hne
  · rw [sameName_comm]
    exact sameName_table_of_free hfree (table_mem_held hstands hname)

theorem mem_rebuiltHolders (h : Holder) :
    h ∈ rebuiltHolders held after.name ↔ (h ∈ held ∧ h.home ≠ after.name) ∨
      (h ∈ after.holders ∧ ∀ i ∈ after.indexes.values, h ≠ .index i.name after.name) := by
  -- the new table alone is renamed: nothing else is under the temporary name
  have hstay {x : Holder} (hx : x ∈ held) :
      x.renamed (Statement.rebuildName after.name) after.name = x :=
    Holder.renamed_of_ne (sameName_table_of_free hfree (htidy.housed x hx))
  have hmove : (Holder.table (Statement.rebuildName after.name)).renamed
      (Statement.rebuildName after.name) after.name = .table after.name := by
    simp [Holder.renamed]
  have hmap : h ∈ rebuiltHolders held after.name ↔ ∃ x ∈ (Statement.dropTable after.name).holders
      (held ++ [.table (Statement.rebuildName after.name)]),
        x.renamed (Statement.rebuildName after.name) after.name = h := List.mem_map
  rw [hmap]
  simp only [mem_dropTable_temporary htidy hstands hname hfree]
  constructor
  · rintro ⟨x, ⟨hx, hhome⟩ | rfl, rfl⟩
    · rw [hstay hx]
      exact .inl ⟨hx, hhome⟩
    · rw [hmove]
      exact .inr ⟨after.table_mem_holders, (forall_ne_index_iff after.table_mem_holders).mpr rfl⟩
  · rintro (⟨hheld, hhome⟩ | ⟨hown, hnot⟩)
    · exact ⟨h, .inl ⟨hheld, hhome⟩, hstay hheld⟩
    · rw [(forall_ne_index_iff hown).mp hnot]
      exact ⟨_, .inr rfl, hmove⟩

theorem mem_foldl_rebuildTable (columns : List String) (h : Holder) :
    h ∈ (Statement.ofChange (.rebuildTable before after columns)).foldl Statement.holders held ↔
      (h ∈ held ∧ h.home ≠ after.name) ∨ h ∈ after.holders := by
  rw [(takeFree_rebuildTable_eq columns).2]
  exact mem_foldl_createIndexes (.refl _) (mem_rebuiltHolders htidy hstands hname hfree) h

end Temporary

theorem takeFree_rebuildTable_iff (columns : List String)
    (hdistinct : (after.holders.map fun h => Text.lowerAscii h.name).Nodup) :
    takeFree held (Statement.ofChange (.rebuildTable before after columns)) = true ↔
      isHeld held (Statement.rebuildName after.name) = false ∧ after.Apart held := by
  rw [(takeFree_rebuildTable_eq columns).1, Bool.and_eq_true, Bool.not_eq_true']
  refine and_congr_right fun hfree => ?_
  rw [isHeld_dropTable_temporary htidy hstands hname hfree, Bool.not_false, Bool.true_and,
    takeFree_createIndexes_iff hdistinct (.refl _) (mem_rebuiltHolders htidy hstands hname hfree),
    apart_iff htidy hstands hname]

/-! ### A table changed in place -/

section Wellformed

variable (hbefore : before.WellFormed) (hafter : after.WellFormed)

include hbefore hafter

omit hname in
/-- An index of the old table stays just if the new table has it as it is. -/
theorem index_stays_iff (name : String) :
    (Holder.index name before.name ∈ before.holders ∧
        ∀ lost ∈ lostIndexes before after, sameName name lost = false) ↔
      Holder.index name after.name ∈ after.holders ∧
        ∀ i ∈ createdIndexes before after, name ≠ i.name := by
  simp only [index_mem_iff hbefore, index_mem_iff hafter]
  constructor
  · rintro ⟨⟨i, hi⟩, hstay⟩
    have hsame : after.indexes.get? name = some i := by
      by_contra hne
      exact ne_of_not_sameName (hstay name (mem_lostIndexes_iff.mpr ⟨i, hi, hne⟩)) rfl
    refine ⟨⟨i, hsame⟩, ?_⟩
    rintro j hj rfl
    obtain ⟨hthere, hnew⟩ := (mem_createdIndexes_iff hafter).mp hj
    exact hnew (hi.trans (hsame.symm.trans hthere))
  · -- an index that is not created is there as it is, so no lost index has its name in any case
    rintro ⟨⟨i, hi⟩, hold⟩
    have hown := hafter.ownName hi
    have hthere : before.indexes.get? name = some i := by
      by_contra hne
      rw [← hown] at hi hne
      exact hold i ((mem_createdIndexes_iff hafter).mpr ⟨hi, hne⟩) hown.symm
    refine ⟨⟨i, hthere⟩, ?_⟩
    intro lost hlost
    obtain ⟨j, hj, hne⟩ := mem_lostIndexes_iff.mp hlost
    have hheld {key : String} {found : Index} (h : before.indexes.get? key = some found) :
        Holder.index key before.name ∈ held :=
      (hstands (.index key before.name) rfl).mpr ((index_mem_iff hbefore).mpr ⟨found, h⟩)
    rw [Bool.eq_false_iff]
    intro hsame
    have heq := htidy.distinct _ (hheld hthere) _ (hheld hj) hsame
    obtain rfl : name = lost := congrArg Holder.name heq
    rw [hthere] at hj
    exact hne (hi.trans hj)

theorem mem_foldl_lostIndexes (h : Holder) :
    h ∈ ((lostIndexes before after).map Statement.dropIndex).foldl Statement.holders held ↔
      (h ∈ held ∧ h.home ≠ after.name) ∨
        (h ∈ after.holders ∧ ∀ i ∈ createdIndexes before after, h ≠ .index i.name after.name) := by
  rw [Statement.mem_foldl_dropIndexes]
  by_cases hhome : h.home = after.name
  · have hown : h ∈ held ↔ h ∈ before.holders := hstands h (hhome.trans hname.symm)
    have hnot : ¬(h ∈ held ∧ h.home ≠ after.name) := fun hh => hh.2 hhome
    rw [or_iff_right hnot, hown]
    cases h with
    | table name =>
        obtain rfl : name = after.name := hhome
        have htable : Holder.table after.name ∈ before.holders := by
          rw [← hname]
          exact before.table_mem_holders
        exact iff_of_true ⟨htable, by simp [Holder.isIndex]⟩ ⟨after.table_mem_holders, by simp⟩
    | index name owner =>
        obtain rfl : owner = after.name := hhome
        have hstays := index_stays_iff htidy hstands hbefore hafter name
        rw [hname] at hstays
        simp only [Holder.isIndex, Holder.name, true_imp_iff, ne_eq, Holder.index.injEq, and_true]
        exact hstays
  · have hstay : h ∈ held → h.isIndex = true → ∀ name ∈ lostIndexes before after,
        sameName h.name name = false := by
      intro hheld _ name hlost
      obtain ⟨i, hi, -⟩ := mem_lostIndexes_iff.mp hlost
      have hmem : Holder.index name before.name ∈ before.holders :=
        (index_mem_iff hbefore).mpr ⟨i, hi⟩
      have hne := ne_of_mem_holders htidy hstands hname hmem hheld hhome
      exact hne
    have hnot : ¬(h ∈ after.holders ∧
        ∀ i ∈ createdIndexes before after, h ≠ .index i.name after.name) :=
      fun hh => hhome (home_of_mem_holders hh.1)
    rw [or_iff_left hnot, and_iff_left_of_imp hstay, and_iff_left hhome]

theorem mem_foldl_changesInPlace (h : Holder) :
    h ∈ (Statement.ofChanges (changesInPlace before after)).foldl Statement.holders held ↔
      (h ∈ held ∧ h.home ≠ after.name) ∨ h ∈ after.holders := by
  obtain ⟨columns, hcolumns, hstatements⟩ := ofChanges_changesInPlace before after
  rw [hstatements, List.foldl_append, List.foldl_append,
    Statement.foldl_holders_of_forall fun statement hs => (hcolumns statement hs).2]
  exact mem_foldl_createIndexes sublist_createdIndexes
    (mem_foldl_lostIndexes htidy hstands hname hbefore hafter) h

theorem takeFree_changesInPlace_iff
    (hdistinct : (after.holders.map fun h => Text.lowerAscii h.name).Nodup) :
    takeFree held (Statement.ofChanges (changesInPlace before after)) = true ↔
      after.Apart held := by
  obtain ⟨columns, hcolumns, hstatements⟩ := ofChanges_changesInPlace before after
  have hdrops : takeFree held ((lostIndexes before after).map Statement.dropIndex) = true := by
    refine Statement.takeFree_of_taken?_eq_none fun statement hs => ?_
    obtain ⟨name, -, rfl⟩ := List.mem_map.mp hs
    rfl
  rw [hstatements, Statement.takeFree_append, Statement.takeFree_append, hdrops,
    Statement.takeFree_of_taken?_eq_none fun statement hs => (hcolumns statement hs).1,
    Statement.foldl_holders_of_forall fun statement hs => (hcolumns statement hs).2,
    Bool.true_and, Bool.true_and,
    takeFree_createIndexes_iff hdistinct sublist_createdIndexes
      (mem_foldl_lostIndexes htidy hstands hname hbefore hafter), apart_iff htidy hstands hname]
  constructor
  · intro hcreated i hi other hother hhome
    -- an index that stays is held already, so its name is apart from all others
    by_cases hnew : i ∈ createdIndexes before after
    · exact hcreated i hnew other hother hhome
    · obtain ⟨name, hi⟩ := NameMap.mem_values_iff.mp hi
      obtain rfl := hafter.ownName hi
      have hthere : before.indexes.get? i.name = some i := by
        by_contra hne
        exact hnew ((mem_createdIndexes_iff hafter).mpr ⟨hi, hne⟩)
      have hmem : Holder.index i.name before.name ∈ before.holders :=
        (index_mem_iff hbefore).mpr ⟨i, hthere⟩
      have hne := ne_of_mem_holders htidy hstands hname hmem hother hhome
      exact hne
  · exact fun hall i hi => hall i (sublist_createdIndexes.subset hi)

end Wellformed

/-! ### The difference of two tables -/

section Diff

variable (hbefore : before.WellFormed) (hafter : after.WellFormed)
  (hdistinct : (after.holders.map fun h => Text.lowerAscii h.name).Nodup)
include hbefore hafter

theorem mem_foldl_diff (h : Holder)
    (hfree : isRebuilt before after = true →
      isHeld held (Statement.rebuildName after.name) = false) :
    h ∈ (Statement.ofChanges (before.diff after)).foldl Statement.holders held ↔
      (h ∈ held ∧ h.home ≠ after.name) ∨ h ∈ after.holders := by
  unfold diff
  split
  · rename_i hsame
    subst hsame
    by_cases hhome : h.home = before.name
    · have hown := hstands h hhome
      simp [Statement.ofChanges, hhome, hown]
    · have hnot : h ∉ before.holders := fun hh => hhome (home_of_mem_holders hh)
      simp [Statement.ofChanges, hhome, hnot]
  · rename_i hne
    split
    · rename_i hneeds
      have hrebuilt : isRebuilt before after = true := by simp [isRebuilt, hne, hneeds]
      rw [Statement.ofChanges, List.flatMap_singleton]
      exact mem_foldl_rebuildTable htidy hstands hname (hfree hrebuilt) _ h
    · exact mem_foldl_changesInPlace htidy hstands hname hbefore hafter h

include hdistinct

theorem takeFree_diff_iff :
    takeFree held (Statement.ofChanges (before.diff after)) = true ↔
      (isRebuilt before after = true → isHeld held (Statement.rebuildName after.name) = false) ∧
        after.Apart held := by
  unfold diff
  split
  · rename_i hsame
    subst hsame
    have hnot : isRebuilt before before = false := by simp [isRebuilt]
    have hapart : before.Apart held := fun h hh other hother hhome =>
      ne_of_mem_holders htidy hstands hname hh hother hhome
    simp [Statement.ofChanges, takeFree, hnot, hapart]
  · rename_i hne
    split
    · rename_i hneeds
      have hrebuilt : isRebuilt before after = true := by simp [isRebuilt, hne, hneeds]
      rw [Statement.ofChanges, List.flatMap_singleton,
        takeFree_rebuildTable_iff htidy hstands hname _ hdistinct]
      simp [hrebuilt]
    · rename_i hneeds
      have hnot : isRebuilt before after = false := by simp [isRebuilt, hneeds]
      rw [takeFree_changesInPlace_iff htidy hstands hname hbefore hafter hdistinct]
      simp [hnot]

end Diff

end There

end Table

end ProjectHub
