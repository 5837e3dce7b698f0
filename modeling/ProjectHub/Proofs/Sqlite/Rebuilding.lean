import ProjectHub.Proofs.Sqlite.Copying

/-!
# Rebuilding a table

The new shape of a table is created under another name, the rows are copied there,
the old table is dropped, and the new one takes its name and gets the indexes. The
rows of the old table are deleted when it is dropped, so references to it act on the
rows of other tables; all else in the database stays as it is.
-/

namespace ProjectHub

open Sql

/-- The columns that both shapes of a table have with one type, in the new order. -/
def Table.alikeColumns (before after : Table) : List String :=
  (after.columns.filter fun column =>
    (before.column? column.name).any fun old => old.sqlType = column.sqlType).map Column.name

/-- What a table is rebuilt from and to, and the columns that are copied. -/
theorem Realm.exists_of_rebuildTable_mem_diff {current desired : Realm} {before after : Table}
    {columns : List String} (hdesired : desired.WellFormed)
    (h : .rebuildTable before after columns ∈ current.diff desired) :
    current.tables.get? after.name = some before ∧ desired.tables.get? after.name = some after ∧
      columns = Table.sharedColumns before after := by
  obtain ⟨name, -, h⟩ := List.mem_flatMap.mp h
  rcases Realm.diffAt_cases current desired name with ⟨-, hnone⟩ | ⟨_, -, -, hadd⟩ |
    ⟨_, -, -, hdrop⟩ | ⟨old, new, hold, hnew, hrebuild⟩ | ⟨_, _, -, -, -, hat⟩
  · simp [hnone] at h
  · simp [hadd] at h
  · simp [hdrop] at h
  · rw [hrebuild, List.mem_singleton] at h
    cases h
    rw [hdesired.ownName hnew]
    exact ⟨hold, hnew, rfl⟩
  · simp [hat, Table.changesInPlace_eq] at h

namespace Sqlite

/-- The values of the rows of a table in some columns. -/
def StoredTable.project (t : StoredTable) (names : List String) : List (List Value) :=
  t.rows.map fun row => names.map (t.valueOf row)

namespace Database

variable {db next : Database} {name : String} {t : StoredTable}

/-! ## What a deletion reaches -/

/-- The tables of a database that a deletion from the table of a name can act on: that table, and
those that refer to one of them and do more than refuse when the row they refer to goes. -/
inductive Reaches (db : Database) (name : String) : StoredTable → Prop
  | self {t : StoredTable} (there : t ∈ db.tables) (own : sameName t.name name = true) :
      Reaches db name t
  | reference {t u : StoredTable} {f : ForeignKey} (parent : Reaches db name t)
      (there : u ∈ db.tables) (refers : f ∈ u.foreignKeys)
      (own : sameName f.reference.parent t.name = true) (acts : f.reference.deletion ≠ .refuse) :
      Reaches db name u

theorem Reaches.mem (h : db.Reaches name t) : t ∈ db.tables := by
  cases h with
  | self there => exact there
  | reference _ there => exact there

/-- A new table without references does not change what a deletion from another reaches. -/
theorem Reaches.of_append {wide : Database} {u : StoredTable} (htables : wide.tables = db.tables ++ [u])
    (hforeign : u.foreignKeys = []) (hname : sameName u.name name = false)
    (h : wide.Reaches name t) : t ∈ db.tables ∧ db.Reaches name t := by
  induction h with
  | self there own =>
      rw [htables] at there
      rcases List.mem_append.mp there with there | there
      · exact ⟨there, .self there own⟩
      · rw [List.mem_singleton.mp there, hname] at own
        cases own
  | reference parent there refers own acts ih =>
      rw [htables] at there
      rcases List.mem_append.mp there with there | there
      · exact ⟨there, .reference ih.2 there refers own acts⟩
      · rw [List.mem_singleton.mp there, hforeign] at refers
        cases refers

/-- A deletion leaves the schema of all tables as it is, and the tables that it does not reach
altogether. -/
theorem forall₂_withoutRows? (hdb : db.Sound) {gone : List Row}
    (h : db.withoutRows? name gone = some next) :
    List.Forall₂ (fun old new => new.bare = old.bare ∧ (¬ db.Reaches name old → new = old))
      db.tables next.tables := by
  have hsame := sameSchema_withoutRows? hdb.tables h
  obtain ⟨t, ht⟩ := exists_table?_of_withoutRows? h
  have hown := sameName_of_table? ht
  have hleft : ∀ u ∈ next.tables, (¬ ∃ w : StoredTable, w.bare = u.bare ∧ db.Reaches name w) →
      u ∈ db.tables := by
    refine deleteRows?_induct
      (fun u => ∃ w : StoredTable, w.bare = u.bare ∧ db.Reaches name w)
      (P := fun s => ∀ u ∈ s.tables, (¬ ∃ w : StoredTable, w.bare = u.bare ∧ db.Reaches name w) →
        u ∈ db.tables) hdb.tables ?_ ?_ ?_
      (.refl db) ht ⟨t, rfl, .self hown.1 hown.2⟩ (fun u hu _ => hu) h
    · rintro t u hbare ⟨w, hw, hreached⟩
      exact ⟨w, hw.trans hbare, hreached⟩
    · rintro t - ⟨w, hw, hreached⟩ u hu f hf hparent hacts
      refine ⟨u, rfl, .reference hreached hu hf ?_ hacts⟩
      rwa [StoredTable.name_of_bare hw]
    · intro s t thin _ hs ht hreached hthin u hu hnot
      obtain ⟨w, hw, hreached⟩ := hreached
      obtain ⟨v, hv, heq⟩ := List.mem_map.mp hu
      split at heq
      · subst heq
        exact absurd ⟨w, hw.trans hthin.bare.symm, hreached⟩ hnot
      · subst heq
        exact hs v hv hnot
  have hpairs : List.Forall₂ (fun old new => old ∈ db.tables ∧ new ∈ next.tables ∧
      new.bare = old.bare) db.tables next.tables := by
    have hbares : List.Forall₂ (fun new old => new.bare = old.bare) next.tables db.tables := by
      have hmapped : List.Forall₂ (· = ·) (next.tables.map StoredTable.bare)
          (db.tables.map StoredTable.bare) := by
        rw [hsame.tables, List.forall₂_eq_eq_eq]
      exact List.forall₂_map_right_iff.mp (List.forall₂_map_left_iff.mp hmapped)
    have hnew := (List.forall₂_and_left next.tables db.tables).mpr ⟨fun new hnew => hnew, hbares⟩
    exact (List.forall₂_and_left db.tables next.tables).mpr ⟨fun old hold => hold, hnew.flip⟩
  refine hpairs.imp fun old new hpair => ?_
  obtain ⟨hold, hnew, hbare⟩ := hpair
  refine ⟨hbare, fun hnot => ?_⟩
  refine eq_of_sameName hdb.tables (hleft new hnew ?_) hold ?_
  · rintro ⟨w, hw, hreached⟩
    have hown : w = old := by
      refine eq_of_sameName hdb.tables hreached.mem hold ?_
      rw [StoredTable.name_of_bare (hw.trans hbare), sameName_self]
    exact hnot (hown ▸ hreached)
  · rw [StoredTable.name_of_bare hbare, sameName_self]

/-! ## The statements of a rebuild -/

/-- What is left of a table after another one got rebuilt: its schema, but that references to the
name the other one had meanwhile go to it now. It is untouched if no deletion from the other
table reaches it and it has no such references. -/
structure Spared (db : Database) (name temporary : String) (old new : StoredTable) : Prop where
  schema : new.bare = (renamed temporary name old).bare
  untouched : ¬ db.Reaches name old →
    (∀ f ∈ old.foreignKeys, sameName f.reference.parent temporary = false) → new = old

variable {temporary : String} {rest : List Statement}

theorem isNamed_of_ofTable? {shape : ProjectHub.Table} {definition : TableDefinition}
    (h : TableDefinition.ofTable? shape = some definition)
    (ht : StoredTable.ofDefinition? name definition = some t) : t.IsNamed ∧ t.rows = [] := by
  exact isNamed_of_ofDefinition? (Command.isNamed_of_ofTable? h) ht

theorem setTable_concat {u : StoredTable} (hfree : db.table? u.name = none) (hname : t.name = u.name) :
    (({ db with tables := db.tables ++ [t] } : Database).setTable u).tables = db.tables ++ [u] := by
  have hnone := List.find?_eq_none.mp hfree
  simp only [setTable, List.map_append, List.map_cons, List.map_nil, hname, sameName_self, if_true]
  refine congrArg (· ++ [u]) ((List.map_congr_left fun w hw => ?_).trans (List.map_id _))
  exact if_neg (hnone w hw)

/-- A table that is created and filled comes after those there are. -/
theorem exists_filled {after : ProjectHub.Table} {columns : List String} {s : StoredTable}
    (hdb : db.Sound) (hs : db.table? name = some s)
    (h : (Statement.createTable temporary after ::
      ((if columns.isEmpty then [] else [Statement.copyRows temporary name columns]) ++ rest)).foldlM
        after? db = some next) :
    ∃ definition t rows last filled, TableDefinition.ofTable? after = some definition ∧
      StoredTable.ofDefinition? temporary definition = some t ∧ db.table? temporary = none ∧
      filled.tables = db.tables ++ [t.withRows rows last] ∧ filled.indexes = db.indexes ∧
      filled.Sound ∧ rest.foldlM after? filled = some next ∧
      (columns ≠ [] → List.Forall₂ (fun old row =>
        t.Takes (columns.map fun column => (column, quotedValue s old column)) row) s.rows rows) := by
  obtain ⟨command, created, hcommand, hexecute, h⟩ := foldlM_after?_cons_iff.mp h
  obtain ⟨definition, hdefinition, rfl⟩ := Option.map_eq_some_iff.mp hcommand
  have hcreate : db.createTable? temporary definition = some created := hexecute
  have hsound := sound_createTable? hdb hcreate
  obtain ⟨t, ht, hfree, rfl⟩ := createTable?_eq hcreate
  have hnone := (free_of_isFree hfree).1
  have hname := (distinct_of_ofDefinition? ht).1
  split at h
  · rename_i hempty
    exact ⟨definition, t, t.rows, t.lastNumber, { db with tables := db.tables ++ [t] },
      hdefinition, ht, hnone, rfl, rfl, hsound, h,
      fun hne => absurd (List.isEmpty_iff.mp hempty) hne⟩
  · obtain ⟨command, filled, hcommand, hexecute, h⟩ := foldlM_after?_cons_iff.mp h
    cases hcommand
    have hcopy : Database.copyRows? _ temporary name columns = some filled := hexecute
    have hfound : ({ db with tables := db.tables ++ [t] } : Database).table? temporary = some t := by
      rw [table?_append, hnone, hname, sameName_self, if_pos rfl]
      rfl
    have hsource : ({ db with tables := db.tables ++ [t] } : Database).table? name = some s := by
      rw [table?_append, hs]
      rfl
    obtain ⟨rows, last, hall, htables, hindexes⟩ := copyRows?_eq hsound.tables hfound hsource
      (isPlain_of_ofTable? hdefinition ht) (refuses_of_ofTable? hdefinition ht) hcopy
    have hempty : t.rows = [] := (isNamed_of_ofTable? hdefinition ht).2
    have hplace := setTable_concat (t := t) (u := t.withRows rows last) (hname ▸ hnone) rfl
    rw [hempty, List.nil_append, hplace] at htables
    exact ⟨definition, t, rows, last, filled, hdefinition, ht, hnone, htables, hindexes,
      sound_of_sameSchema (sameSchema_copyRows? hsound.tables hcopy) hsound, h, fun _ => hall⟩

theorem renamed_of_not_refers (hname : sameName t.name temporary = false)
    (h : ∀ f ∈ t.foreignKeys, sameName f.reference.parent temporary = false) :
    renamed temporary name t = t := by
  have hkeys : t.foreignKeys.map (renameParent temporary name) = t.foreignKeys := by
    refine (List.map_congr_left fun f hf => ?_).trans (List.map_id _)
    rw [renameParent, h f hf, if_neg Bool.false_ne_true]
    rfl
  rw [renamed, hname, if_neg Bool.false_ne_true, hkeys]

theorem exists_concat_of_forall₂ {α β : Type} {R : α → β → Prop} {as : List α} {a : α} {cs : List β}
    (h : List.Forall₂ R (as ++ [a]) cs) :
    ∃ bs b, cs = bs ++ [b] ∧ List.Forall₂ R as bs ∧ R a b := by
  induction as generalizing cs with
  | nil =>
      obtain ⟨b, rest, hab, hrest, rfl⟩ := List.forall₂_cons_left_iff.mp h
      cases hrest
      exact ⟨[], b, rfl, .nil, hab⟩
  | cons first as ih =>
      obtain ⟨b, rest, hfirst, hrest, rfl⟩ := List.forall₂_cons_left_iff.mp h
      obtain ⟨bs, last, rfl, hall, hlast⟩ := ih hrest
      exact ⟨b :: bs, last, rfl, .cons hfirst hall, hlast⟩

/-- Where a table is dropped, the others are left, and a new one without references stays at their
end. -/
theorem exists_dropped {wide : Database} {u : StoredTable} (hwide : wide.Sound)
    (htables : wide.tables = db.tables ++ [u]) (hforeign : u.foreignKeys = [])
    (hname : sameName u.name name = false) (h : wide.dropTable? name = some next) :
    ∃ others, next.tables = others ++ [u] ∧
      next.indexes = wide.indexes.filter (fun i => !sameName i.table name) ∧
      List.Forall₂ (fun old new => old ∈ db.tables ∧ new.bare = old.bare ∧
          (¬ db.Reaches name old → new = old))
        (db.tables.filter fun w => !sameName w.name name) others := by
  simp only [dropTable?, bind, Option.bind_eq_some_iff, pure, Option.some.injEq] at h
  obtain ⟨t, -, left, hleft, rfl⟩ := h
  have hpairs := forall₂_withoutRows? hwide hleft
  have hstays := List.rel_filter (p := fun w : StoredTable => !sameName w.name name)
    (q := fun w : StoredTable => !sameName w.name name)
    (fun old new hpair => by
      show (!sameName old.name name) = true ↔ (!sameName new.name name) = true
      rw [StoredTable.name_of_bare hpair.1]) hpairs
  have hlast : [u].filter (fun w => !sameName w.name name) = [u] := by
    rw [List.filter_singleton, hname]
    rfl
  rw [htables, List.filter_append, hlast] at hstays
  obtain ⟨others, v, hothers, hrest, -, hv⟩ := exists_concat_of_forall₂ hstays
  -- nothing refers from the new table, so the deletion does not reach it
  have hown : v = u := hv fun hreached => by
    cases hreached with
    | self _ own =>
        rw [hname] at own
        cases own
    | reference _ _ refers =>
        rw [hforeign] at refers
        cases refers
  refine ⟨others, hown ▸ hothers,
    congrArg (List.filter _) (sameSchema_withoutRows? hwide.tables hleft).indexes, ?_⟩
  refine (List.forall₂_and_left _ _).mpr ⟨fun old hold => List.mem_of_mem_filter hold, ?_⟩
  exact hrest.imp fun old new hpair =>
    ⟨hpair.1, fun hnot => hpair.2 fun hreached => hnot (hreached.of_append htables hforeign hname).2⟩

/-- Where the new table takes the name of the one that is dropped, the others are spared. -/
theorem exists_replaced {wide : Database} {u : StoredTable} (hdb : db.Sound)
    (hfree : db.table? temporary = none) (hwide : wide.Sound)
    (htables : wide.tables = db.tables ++ [u]) (hindexes : wide.indexes = db.indexes)
    (hforeign : u.foreignKeys = []) (hname : u.name = temporary)
    (hother : sameName temporary name = false)
    (h : (Statement.dropTable name :: .renameTable temporary name :: rest).foldlM after? wide =
      some next) :
    ∃ others middle, middle.tables = others ++ [{ u with name := name }] ∧
      middle.table? temporary = none ∧
      middle.indexes = db.indexes.filter (fun i => !sameName i.table name) ∧
      List.Forall₂ (db.Spared name temporary) (db.tables.filter fun w => !sameName w.name name)
        others ∧ middle.Sound ∧ rest.foldlM after? middle = some next := by
  obtain ⟨command, dropped, hcommand, hexecute, h⟩ := foldlM_after?_cons_iff.mp h
  cases hcommand
  have hdrop : wide.dropTable? name = some dropped := hexecute
  obtain ⟨command, middle, hcommand, hexecute, h⟩ := foldlM_after?_cons_iff.mp h
  cases hcommand
  have hrename : dropped.renameTable? temporary name = some middle := hexecute
  have hsound := sound_renameTable? (sound_dropTable? hwide hdrop) hrename
  obtain ⟨others, hleft, hkept, hpairs⟩ := exists_dropped hwide htables hforeign (hname ▸ hother) hdrop
  obtain ⟨-, hnew, rfl⟩ := renameTable?_eq hrename
  have hnone := List.find?_eq_none.mp hfree
  have hown : renamed temporary name u = { u with name := name } := by
    rw [renamed, hname, sameName_self, if_pos rfl, hforeign, List.map_nil]
  refine ⟨others.map (renamed temporary name), _, ?_, ?_, ?_, ?_, hsound, h⟩
  · show dropped.tables.map _ = _
    rw [hleft, List.map_append, List.map_singleton, hown]
  · rw [table?_renamed (free_of_isFree hnew).1, sameName_comm, hother, sameName_self]
    rfl
  · show dropped.indexes.map _ = _
    rw [hkept, hindexes]
    refine (List.map_congr_left fun i hi => ?_).trans (List.map_id _)
    refine if_neg fun hsame => ?_
    have hthere := hdb.owned i (List.mem_of_mem_filter hi)
    rw [table?_congr hsame, hfree] at hthere
    cases hthere
  · refine List.forall₂_map_right_iff.mpr (hpairs.imp fun old new hpair => ?_)
    obtain ⟨hold, hbare, hsame⟩ := hpair
    constructor
    · show renamed temporary name new.bare = renamed temporary name old.bare
      rw [hbare]
    · intro hreached hrefers
      rw [hsame hreached]
      exact renamed_of_not_refers (by simpa using hnone old hold) hrefers

/-- Indexes on columns come after those there are. -/
theorem foldlM_createIndexes_eq {indexes : List Index}
    (h : (indexes.map (Statement.createIndex name)).foldlM after? db = some next) :
    next.tables = db.tables ∧ next.indexes = db.indexes ++ indexes.map (storedIndex name) := by
  induction indexes generalizing db with
  | nil =>
      cases h
      exact ⟨rfl, (List.append_nil _).symm⟩
  | cons index indexes ih =>
      obtain ⟨command, middle, hcommand, hexecute, hrest⟩ := foldlM_after?_cons_iff.mp h
      cases hcommand
      obtain ⟨-, rfl⟩ := createIndex?_ofNames hexecute
      obtain ⟨htables, hindexes⟩ := ih hrest
      refine ⟨htables, hindexes.trans ?_⟩
      rw [List.append_assoc, List.map_cons, List.singleton_append]

/-! ## What the rows keep -/

theorem type_of_ofColumn? {column : Column} {d : ColumnDefinition}
    (h : ColumnDefinition.ofColumn? column = some d) :
    d.name = column.name ∧ plainType? column.sqlType = some d.type := by
  obtain ⟨type, default, htype, -, rfl⟩ := exists_ofPlain h
  exact ⟨rfl, htype⟩

/-- A table that is declared with plain columns numbers its rows, and its columns have the types
that are declared. -/
theorem types_of_ofTable? {shape : ProjectHub.Table} {definition : TableDefinition}
    (h : TableDefinition.ofTable? shape = some definition)
    (ht : StoredTable.ofDefinition? name definition = some t) :
    t.withoutRowNumber = false ∧ ∀ column ∈ shape.columns, ∃ c ∈ t.columns,
      c.name = column.name ∧ plainType? column.sqlType = some c.type := by
  obtain ⟨ds, cs, asked, keys, hmade⟩ := exists_madeOfShape h ht
  cases hmade.eq
  refine ⟨rfl, fun column hcolumn => ?_⟩
  obtain ⟨d, hd, hdcolumn⟩ := exists_item_of_mapM hmade.definitions hcolumn
  obtain ⟨c, hc, hdc⟩ := exists_item_of_mapM hmade.columns hd
  obtain ⟨hname, htype⟩ := type_of_ofColumn? hdcolumn
  obtain ⟨hcname, hctype⟩ := ofDefinition?_eq hdc
  exact ⟨c, hc, hcname.trans hname, hctype ▸ htype⟩

/-- The copy of a row has the value of the row in a column that gets the type it had, in normal
form. -/
theorem valueOf_copy {u : StoredTable} {old row : Row} {columns : List String} {a c : StoredColumn}
    (hold : t.Fits old) (ht : t.HasDistinctColumns) (hu : u.HasDistinctColumns) (hnamed : u.IsNamed)
    (hrows : u.withoutRowNumber = false) (hcolumns : ∀ name ∈ columns, ∃ d ∈ u.columns, d.name = name)
    (htakes : u.Takes (columns.map fun column => (column, quotedValue t old column)) row)
    (ha : a ∈ t.columns) (hc : c ∈ u.columns) (hname : c.name = a.name) (hcopied : a.name ∈ columns)
    (htype : a.type.IsNamed) (hdeclared : plainType? (normalizeType a.type.text) = some c.type)
    (hnull : u.holdsNumber a.name = true → t.valueOf old a.name ≠ .null) :
    u.valueOf row a.name = t.valueOf old a.name := by
  obtain ⟨v, hv, hstore⟩ := StoredTable.exists_value? ht ha hold
  have hquoted : quotedValue t old a.name = v := by
    rw [quotedValue, hv]
  have hvalue : t.valueOf old a.name = v := by
    rw [StoredTable.valueOf, hv, Option.getD_some]
  rw [hvalue] at hnull ⊢
  rw [← hname] at hquoted hcopied hnull ⊢
  have hcopy := htakes.valueOf hu hnamed hrows hcolumns hc hcopied
  rw [hquoted] at hcopy
  exact hcopy (TypeName.store_of_normal htype hdeclared hstore) hnull

theorem exists_of_mem_alikeColumns {indexes : List StoredIndex} {after : ProjectHub.Table}
    (h : name ∈ Table.alikeColumns (t.inspect indexes) after) :
    name ∈ Table.sharedColumns (t.inspect indexes) after ∧
      ∃ column ∈ after.columns, column.name = name ∧
        ∃ a ∈ t.columns, a.name = name ∧ normalizeType a.type.text = column.sqlType := by
  obtain ⟨column, hcolumn, rfl⟩ := List.mem_map.mp h
  obtain ⟨hcolumn, halike⟩ := List.mem_filter.mp hcolumn
  obtain ⟨old, hold, htype⟩ := (Option.any_eq_true _ _).mp halike
  have hshared : (t.inspect indexes).hasColumn column.name = true := by
    rw [Table.hasColumn, hold]
    rfl
  refine ⟨List.mem_map_of_mem (List.mem_filter.mpr ⟨hcolumn, hshared⟩), column, hcolumn, rfl, ?_⟩
  obtain ⟨a, ha, rfl⟩ := List.mem_map.mp (List.mem_of_find?_eq_some hold)
  have hname : a.inspect.name = column.name := by simpa using List.find?_some hold
  exact ⟨a, List.mem_of_mem_filter ha, hname, of_decide_eq_true htype⟩

/-- Copies of all rows have the values of the rows in the columns that keep their type. -/
theorem project_of_copies {indexes : List StoredIndex} {after : ProjectHub.Table}
    {definition : TableDefinition} {v : StoredTable} {rows : List Row} (hdb : db.Fits)
    (ht : t ∈ db.tables) (hdefinition : TableDefinition.ofTable? after = some definition)
    (hv : StoredTable.ofDefinition? name definition = some v)
    (hany : ∀ a ∈ t.columns, a.name ∈ Table.alikeColumns (t.inspect indexes) after →
      t.isStrict = true → Text.sameAscii a.type.text "ANY" = false)
    (hnull : ∀ column ∈ Table.sharedColumns (t.inspect indexes) after,
      v.holdsNumber column = true → ∀ row ∈ t.rows, t.valueOf row column ≠ .null)
    (hcopies : List.Forall₂ (fun old row =>
      v.Takes ((Table.sharedColumns (t.inspect indexes) after).map fun column =>
        (column, quotedValue t old column)) row) t.rows rows) :
    rows.map (fun row => (Table.alikeColumns (t.inspect indexes) after).map (v.valueOf row)) =
      t.project (Table.alikeColumns (t.inspect indexes) after) := by
  obtain ⟨hrows, htypes⟩ := types_of_ofTable? hdefinition hv
  have hcolumns : ∀ name ∈ Table.sharedColumns (t.inspect indexes) after,
      ∃ d ∈ v.columns, d.name = name := by
    intro name hname
    obtain ⟨column, hcolumn, rfl⟩ := List.mem_map.mp hname
    obtain ⟨d, hd, hdname, -⟩ := htypes column (List.mem_of_mem_filter hcolumn)
    exact ⟨d, hd, hdname⟩
  have hpairs := (List.forall₂_and_left _ _).mpr ⟨fun old hold => hold, hcopies⟩
  rw [StoredTable.project, ← List.forall₂_eq_eq_eq, List.forall₂_map_left_iff,
    List.forall₂_map_right_iff]
  refine hpairs.flip.imp fun row old hpair => List.map_congr_left fun name hname => ?_
  obtain ⟨hold, htakes⟩ := hpair
  obtain ⟨hcopied, column, hcolumn, hcname, a, ha, rfl, htype⟩ := exists_of_mem_alikeColumns hname
  obtain ⟨c, hc, hown, hdeclared⟩ := htypes column hcolumn
  have hnamed : a.type.IsNamed := by
    rcases (hdb.named t ht).types a ha with hnamed | ⟨hstrict, hsame⟩
    · exact hnamed
    · rw [hany a ha hname hstrict] at hsame
      cases hsame
  exact valueOf_copy (hdb.rows t ht old hold) (hdb.sound.columns t ht)
    (distinct_of_ofDefinition? hv).2 (isNamed_of_ofTable? hdefinition hv).1 hrows hcolumns htakes ha hc
    (hown.trans hcname) hcopied hnamed (htype ▸ hdeclared)
    fun hholds => hnull a.name hcopied hholds old hold

/-- What the statements that rebuild a table do to a database. -/
structure Rebuilt (db next : Database) (before after : ProjectHub.Table) (t u : StoredTable) :
    Prop where
  old : db.table? after.name = some t
  new : next.table? after.name = some u
  /-- The table has the columns, the primary key and the indexes that are declared, as they are read
  back. -/
  shape : u.inspect (next.indexesOf after.name) = after.readBack
  temporary : next.table? (Statement.rebuildName after.name) = none
  others : ∃ others, next.tables = others ++ [u] ∧
    List.Forall₂ (db.Spared after.name (Statement.rebuildName after.name))
      (db.tables.filter fun w => !sameName w.name after.name) others
  indexes : next.indexes = (db.indexes.filter fun i => !sameName i.table after.name) ++
    after.indexes.values.map (storedIndex after.name)
  count : Table.sharedColumns before after ≠ [] → u.rows.length = t.rows.length
  /-- Columns with the type they had keep their values, but those that a strict table kept as they
  came, and NULL where the numbers of the rows are to be. -/
  values : Table.sharedColumns before after ≠ [] →
    (∀ a ∈ t.columns, a.name ∈ Table.alikeColumns before after → t.isStrict = true →
      Text.sameAscii a.type.text "ANY" = false) →
    (∀ column ∈ Table.sharedColumns before after, u.holdsNumber column = true →
      ∀ row ∈ t.rows, t.valueOf row column ≠ .null) →
    (u.project (Table.alikeColumns before after)).Perm
      (t.project (Table.alikeColumns before after))

theorem isSome_plain?_rebuildTable (before : ProjectHub.Table) {after : ProjectHub.Table}
    (h : (TableDefinition.ofTable? after).isSome = true) (columns : List String) :
    ∀ statement ∈ Statement.ofChange (.rebuildTable before after columns),
      (Command.plain? statement).isSome = true := by
  intro statement hstatement
  rw [ofChange_rebuildTable] at hstatement
  rcases List.mem_cons.mp hstatement with rfl | hstatement
  · rw [Command.plain?, Option.isSome_map]
    exact h
  · rcases List.mem_append.mp hstatement with hcopy | hlast
    · split at hcopy
      · cases hcopy
      · rw [List.mem_singleton.mp hcopy]
        rfl
    · rcases List.mem_cons.mp hlast with rfl | hlast
      · rfl
      · rcases List.mem_cons.mp hlast with rfl | hlast
        · rfl
        · obtain ⟨index, -, rfl⟩ := List.mem_map.mp hlast
          rfl

/-- Indexes that come after those on other tables are all that a table has. -/
theorem indexesOf_append {indexes : List Index} (h : next.indexes =
      (db.indexes.filter fun i => !sameName i.table name) ++ indexes.map (storedIndex name)) :
    next.indexesOf name = indexes.map (storedIndex name) := by
  have hothers : (db.indexes.filter fun i => !sameName i.table name).filter
      (fun i => sameName i.table name) = [] := by
    rw [List.filter_filter]
    refine List.filter_eq_nil_iff.mpr fun i _ => ?_
    simp
  have hown : (indexes.map (storedIndex name)).filter (fun i => sameName i.table name) =
      indexes.map (storedIndex name) := by
    refine List.filter_eq_self.mpr fun i hi => ?_
    obtain ⟨index, -, rfl⟩ := List.mem_map.mp hi
    exact sameName_self name
  rw [indexesOf, h, List.filter_append, hothers, hown, List.nil_append]

/-- A table that was declared with plain columns is shown with the indexes that are declared. -/
theorem inspect_storedIndexes {shape : ProjectHub.Table} {u : StoredTable} (hwell : shape.WellFormed)
    (hu : u.IsOf shape.name shape) :
    u.inspect (shape.indexes.values.map (storedIndex name)) = shape.readBack := by
  have hindex : ∀ e ∈ shape.indexes.entries,
      (e.2.name, u.inspectIndex (storedIndex name e.2)) = e := by
    intro e he
    have hget := NameMap.get?_of_mem_entries he
    have hcolumns : ∀ column ∈ e.2.columns, (u.inspect []).hasColumn column = true := by
      intro column hcolumn
      rw [inspect_of_isOf hu]
      exact hasColumn_readBack.trans (hwell.indexed hget column hcolumn)
    rw [inspectIndex_storedIndex hu.distinct hcolumns, hwell.ownName hget]
  have hall : (shape.indexes.values.map (storedIndex name)).map
      (fun i => (i.name, u.inspectIndex i)) = shape.indexes.entries := by
    rw [NameMap.values, List.map_map, List.map_map]
    exact (List.map_congr_left hindex).trans (List.map_id _)
  rw [inspect_of_isOf hu, hall, NameMap.ofList_entries]
  rfl

/-- Where the statements that rebuild a table succeed in a live database, they do what is said of a
rebuild. -/
theorem exists_rebuilt (hdb : db.Live) {desired : Realm} (hdesired : desired.WellFormed)
    (hnormal : desired.IsNormal) {before after : ProjectHub.Table} {columns : List String}
    (hchange : .rebuildTable before after columns ∈ db.inspect.diff desired)
    (hplain : (TableDefinition.ofTable? after).isSome = true)
    (h : db.run? (Statement.ofChange (.rebuildTable before after columns)) = some next) :
    ∃ t u, db.Rebuilt next before after t u := by
  obtain ⟨hbefore, hafter, rfl⟩ := Realm.exists_of_rebuildTable_mem_diff hdesired hchange
  have hfits := hdb.fits
  obtain ⟨t, ht, htname, -, rfl⟩ := exists_of_get?_inspect hfits.sound hbefore
  obtain ⟨htmem, -⟩ := sameName_of_table? ht
  have hall := foldlM_after? (isSome_plain?_rebuildTable _ hplain _) h
  rw [ofChange_rebuildTable] at hall
  obtain ⟨definition, v, rows, last, wide, hdefinition, hv, hfree, htables, hindexes, hwide, hall,
    hrows⟩ := exists_filled hfits.sound ht hall
  have hother : sameName (Statement.rebuildName after.name) after.name = false := by
    rw [Bool.eq_false_iff]
    intro hsame
    rw [table?_congr hsame, ht] at hfree
    cases hfree
  obtain ⟨others, middle, hmiddle, htemporary, hleft, hspared, hsound, hall⟩ := exists_replaced
    hfits.sound hfree hwide htables hindexes (isPlain_of_ofTable? hdefinition hv).foreignKeys
    (distinct_of_ofDefinition? hv).1 hother hall
  obtain ⟨hnextTables, hnextIndexes⟩ := foldlM_createIndexes_eq hall
  have hnext := (sound_foldlM_after? hsound hall).1
  have hof := isOf_of_ofTable? (hdesired.tables hafter) (hnormal hafter) hdefinition hv
  have hkept := hnextTables
  rw [hmiddle] at hnextTables
  rw [hleft] at hnextIndexes
  obtain ⟨u, hreplaced⟩ : ∃ u : StoredTable, { v.withRows rows last with name := after.name } = u :=
    ⟨_, rfl⟩
  rw [hreplaced] at hnextTables
  have hu : u.IsOf after.name after :=
    hreplaced ▸ ⟨rfl, hof.distinct, hof.plain, hof.columns, hof.key⟩
  have hfilled : u.rows = rows := by rw [← hreplaced, StoredTable.withRows]
  refine ⟨t, u, ht, ?_, ?_, ?_, ⟨others, hnextTables, hspared⟩, hnextIndexes,
    fun hne => hfilled ▸ (hrows hne).length_eq.symm, ?_⟩
  · have hmem : u ∈ next.tables := by
      rw [hnextTables]
      exact List.mem_append_right _ (List.mem_singleton_self _)
    have hfound := table?_of_mem hnext.tables hmem
    rwa [hu.name] at hfound
  · rw [indexesOf_append hnextIndexes]
    exact inspect_storedIndexes (hdesired.tables hafter) hu
  · rw [table?, hkept]
    exact htemporary
  · intro hne hany hnull
    refine List.Perm.of_eq ?_
    have hvalueOf : u.valueOf = v.valueOf := by rw [← hreplaced]; rfl
    have hholds : u.holdsNumber = v.holdsNumber := by rw [← hreplaced]; rfl
    rw [hholds] at hnull
    rw [StoredTable.project, hfilled, hvalueOf]
    exact project_of_copies hfits htmem hdefinition hv hany hnull (hrows hne)

/-! ## Examples -/

/-- The database that commands make of an empty one. -/
def made (commands : List Command) : Database :=
  (commands.foldlM execute? empty).getD empty

theorem live_made {commands : List Command} (h : ∀ command ∈ commands, command.IsNamed) :
    (made commands).Live := by
  unfold made
  cases hmade : commands.foldlM execute? empty with
  | none => exact .empty
  | some db => exact Live.empty.commands h hmade

/-- The change that rebuilds a table of a database to the shape it has in a realm. -/
def rebuild (db : Database) (desired : Realm) (name : String) : SchemaChange :=
  let shape (r : Realm) : ProjectHub.Table := (r.tables.get? name).getD default
  .rebuildTable (shape db.inspect) (shape desired)
    (Table.sharedColumns (shape db.inspect) (shape desired))

/-- The commands that make a table with an index and two rows, and another one that refers to it. -/
def numbering : List Command := [
  .createTable "p" ⟨[⟨"id", ⟨"INTEGER", .integer, true⟩, [.primaryKey false false none]⟩,
    ⟨"a", ⟨"TEXT", .text, false⟩, []⟩, ⟨"b", .none, []⟩], [], false, false⟩ false,
  .createIndex "i" "p" false [.ofName "a"] false,
  .createTable "r" ⟨[⟨"p", ⟨"INTEGER", .integer, true⟩,
    [.references ⟨"p", ["id"], .cascade, false⟩]⟩], [], false, false⟩ false,
  .insert "p" none [[.value (.integer 1), .value (.text "x"), .value (.text "u")],
    [.value (.integer 7), .value (.text "y"), .value (.text "v")]]]

/-- The same tables with the columns of the first in another order, one more column and another
index. -/
def reordered : Realm where
  tables := .ofList [
    ("p", ⟨"p", [⟨"b", "", true, none⟩, ⟨"n", "INTEGER", false, some "3"⟩,
      ⟨"id", "INTEGER", true, none⟩, ⟨"a", "TEXT", false, none⟩], ["id"],
      .ofList [("i", ⟨"i", ["b", "a"], true⟩)]⟩),
    ("r", ⟨"r", [⟨"p", "INTEGER", true, none⟩], [], .empty⟩)]

theorem exists_rebuilt_reordered : (made numbering).Live ∧ reordered.WellFormed ∧ reordered.IsNormal ∧
    rebuild (made numbering) reordered "p" ∈ (made numbering).inspect.diff reordered ∧
    ∃ next before after t u, (made numbering).run? (Statement.ofChange
        (rebuild (made numbering) reordered "p")) = some next ∧
      (made numbering).Rebuilt next before after t u ∧
      (u.project ["b", "id", "a"]).Perm (t.project ["b", "id", "a"]) := by
  have hlive : (made numbering).Live := live_made (by decide +kernel)
  have hchange : rebuild (made numbering) reordered "p" ∈
      (made numbering).inspect.diff reordered := by decide +kernel
  have hrun : ((made numbering).run? (Statement.ofChange
      (rebuild (made numbering) reordered "p"))).isSome = true := by decide +kernel
  have hwell : reordered.WellFormed := by decide +kernel
  have hnormal : reordered.IsNormal := by decide +kernel
  obtain ⟨next, hnext⟩ := Option.isSome_iff_exists.mp hrun
  obtain ⟨t, u, hrebuilt⟩ := exists_rebuilt hlive hwell hnormal hchange (by decide +kernel) hnext
  refine ⟨hlive, hwell, hnormal, hchange, next, _, _, t, u, hnext, hrebuilt, ?_⟩
  have hcolumns : Table.alikeColumns (((made numbering).inspect.tables.get? "p").getD default)
      ((reordered.tables.get? "p").getD default) = ["b", "id", "a"] := by decide +kernel
  have hrows : ((made numbering).table? "p").all (fun t => !t.isStrict && t.rows.all fun row =>
      ["b", "id", "a"].all fun name => t.valueOf row name != .null) = true := by decide +kernel
  have hold : (made numbering).table? "p" = some t := hrebuilt.old
  simp only [hold, Option.all_some, Bool.and_eq_true, Bool.not_eq_true', List.all_eq_true] at hrows
  obtain ⟨hstrict, hvalues⟩ := hrows
  have hshared : Table.sharedColumns (((made numbering).inspect.tables.get? "p").getD default)
      ((reordered.tables.get? "p").getD default) = ["b", "id", "a"] := by decide +kernel
  have hkept := hrebuilt.values (by rw [hshared]; simp)
    (fun a _ _ hnot => by rw [hstrict] at hnot; cases hnot)
    (fun column hcolumn _ row hrow => by
      rw [hshared] at hcolumn
      simpa using hvalues row hrow column hcolumn)
  rwa [hcolumns] at hkept

/-- The values of the rows of a table of a name in some columns. -/
def project (db : Database) (name : String) (names : List String) : List (List Value) :=
  ((db.table? name).map fun t => t.project names).getD []

/-- The commands that make a table `c` that loses its rows with those of another, the table `p` that
it refers to, which has a key that does not number its rows and a NULL there, and a strict table
`q`. -/
def straying : List Command := [
  .createTable "c" ⟨[⟨"id", ⟨"INTEGER", .integer, true⟩, []⟩, ⟨"p", ⟨"INTEGER", .integer, true⟩,
    [.references ⟨"p", ["id"], .cascade, false⟩]⟩], [], false, false⟩ false,
  .createTable "p" ⟨[⟨"id", ⟨"INTEGER", .integer, true⟩, [.primaryKey true false none]⟩,
    ⟨"a", ⟨"TEXT", .text, false⟩, []⟩], [], false, false⟩ false,
  .createTable "q" ⟨[⟨"a", ⟨"ANY", .numeric, false⟩, []⟩], [], false, true⟩ false,
  .insert "p" none [[.value (.integer 1), .value (.text "x")], [.value .null, .value (.text "y")]],
  .insert "c" none [[.value (.integer 1), .value (.integer 1)]],
  .insert "q" none [[.value (.text "1")]]]

/-- Other shapes of these tables: a type with a condition in it and a key with one column twice, a
column without NULL, and a default in parentheses. -/
def strayed : Realm where
  tables := .ofList [
    ("c", ⟨"c", [⟨"id", "INTEGER", true, none⟩, ⟨"p", "INTEGER CHECK (1)", true, none⟩],
      ["id", "id"], .empty⟩),
    ("p", ⟨"p", [⟨"id", "INTEGER", true, none⟩, ⟨"a", "TEXT", false, none⟩], ["id"], .empty⟩),
    ("q", ⟨"q", [⟨"a", "ANY", true, some "(0)"⟩], [], .empty⟩)]

/-- A rebuild has rows of another table deleted where a reference says so, numbers a NULL key,
converts what a strict table kept as it came, and makes of a type, of a key and of a default what
the language says they are. -/
theorem rebuilt_strays : (made straying).Live ∧ strayed.WellFormed ∧ strayed.IsNormal ∧
    (made straying).inspect.diff strayed = ["c", "p", "q"].map (rebuild (made straying) strayed) ∧
    (∀ name ∈ ["c", "p", "q"], (made straying).table? (Statement.rebuildName name) = none) ∧
    -- the rows of `c` go with those of `p`, and the NULL in the key of `p` becomes a number
    ((made straying).project "c" ["id", "p"], (made straying).project "p" ["id", "a"]) =
      ([[.integer 1, .integer 1]], [[.integer 1, .text "x"], [.null, .text "y"]]) ∧
    ((made straying).run? (Statement.ofChange (rebuild (made straying) strayed "p"))).map
        (fun next => (next.project "c" ["id", "p"], next.project "p" ["id", "a"])) =
      some ([], [[.integer 1, .text "x"], [.integer 2, .text "y"]]) ∧
    -- the text in `q` becomes a number, and its default is told without the parentheses
    (made straying).project "q" ["a"] = [[.text "1"]] ∧
    ((made straying).run? (Statement.ofChange (rebuild (made straying) strayed "q"))).map
        (fun next => (next.project "q" ["a"], (next.inspect.tables.get? "q").map Table.columns)) =
      some ([[.integer 1]], some [⟨"a", "ANY", true, some "0"⟩]) ∧
    -- the condition in `c` is no part of a type, and its key has a column once
    ((made straying).run? (Statement.ofChange (rebuild (made straying) strayed "c"))).map
        (fun next => next.inspect.tables.get? "c") =
      some (some ⟨"c", [⟨"id", "INTEGER", true, none⟩, ⟨"p", "INTEGER", true, none⟩], ["id"],
        .empty⟩) := by
  refine ⟨live_made (by decide +kernel), by decide +kernel, by decide +kernel, by decide +kernel,
    by decide +kernel, by decide +kernel, by decide +kernel, by decide +kernel, by decide +kernel,
    by decide +kernel⟩

end Database

end Sqlite

end ProjectHub
