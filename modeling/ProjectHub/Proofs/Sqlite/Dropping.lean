import ProjectHub.Proofs.Realm.Dropping
import ProjectHub.Proofs.Run
import ProjectHub.Proofs.Sqlite.Convergence

/-!
# When a column can be dropped

Databases that statements of plain columns make have no conditions, references
and computed columns, so nothing but a key or an index can read a column of
theirs. Such a database drops a column that none of these reads just if it is
not the last one of its table. With a table that loses all its columns in place
the statements of a difference are refused as a whole.
-/

namespace ProjectHub

/-! ## Plain databases -/

namespace Sqlite

/-- A table without computed columns, conditions and references, and with no key but its primary
one. -/
structure StoredTable.IsPlain (t : StoredTable) : Prop where
  columns : ∀ c ∈ t.columns, c.generated = none
  keys : ∀ key ∈ t.keys, t.primaryKey? = some key
  checks : t.checks = []
  foreignKeys : t.foreignKeys = []

/-- Columns that declare no reference each declare none together. -/
theorem foreignKeys_of_isPlain {ds : List ColumnDefinition} (h : ∀ d ∈ ds, d.IsPlain) :
    ForeignKey.ofColumns ds = [] := by
  induction ds with
  | nil => rfl
  | cons d ds ih =>
      have hfirst := (h d List.mem_cons_self).foreignKeys
      have hrest := ih fun other hother => h other (List.mem_cons_of_mem _ hother)
      unfold ForeignKey.ofColumns at hfirst hrest ⊢
      rw [List.foldl_cons, List.foldl_nil] at hfirst
      rw [List.foldl_cons, hfirst, hrest]

/-- A definition of plain columns with a key of names says no conditions. -/
theorem checks_of_isPlain {ds : List ColumnDefinition} (h : ∀ d ∈ ds, d.IsPlain)
    {names : List String} : Check.ofDefinition ⟨ds, keyConstraints names, false, false⟩ = [] := by
  refine List.append_eq_nil_iff.mpr
    ⟨List.flatMap_eq_nil_iff.mpr fun d hd => (h d hd).checks _, ?_⟩
  unfold keyConstraints
  split <;> rfl

/-- A definition of plain columns with a key of names declares no references. -/
theorem references_of_isPlain {ds : List ColumnDefinition} (h : ∀ d ∈ ds, d.IsPlain)
    {names : List String} : ForeignKey.ofColumns ds ++
      (keyConstraints names).filterMap ForeignKey.ofTable? = [] := by
  rw [foreignKeys_of_isPlain h]
  unfold keyConstraints
  split <;> rfl

/-- A constraint that makes a key of names makes no other key, and does not say what becomes of rows
that agree in it. -/
theorem primary_of_keyConstraints {cs : List StoredColumn} {names : List String}
    {asked : List (KeyRequest × Key)}
    (hasked : ((keyConstraints names).filterMap KeyRequest.ofTable?).mapM
      (fun r => (r.key? cs).map fun key => (r, key)) = some asked)
    (isNumbered : Bool) {keys : List Key}
    (hkeys : ((asked.map Prod.snd).filter fun key => !(key.isPrimary && isNumbered)).foldlM
      Key.add? [] = some keys) {key : Key}
    (hkey : key ∈ ((asked.map Prod.snd).filter fun key => key.isPrimary && isNumbered) ++ keys) :
    (((asked.map Prod.snd).filter fun key => key.isPrimary && isNumbered) ++ keys).find?
      Key.isPrimary = some key ∧ key.resolution = none := by
  -- At most one key is asked for, so none is compared with another when they are put together.
  cases names with
  | nil =>
      cases hasked
      cases hkeys
      cases hkey
  | cons name names =>
      have hrequest : (keyConstraints (name :: names)).filterMap KeyRequest.ofTable? =
          [⟨(name :: names).map KeyColumn.ofName, none, true, false, true, none⟩] := rfl
      rw [hrequest, List.mapM_cons] at hasked
      obtain ⟨only, honly, hasked⟩ := Option.bind_eq_some_iff.1 hasked
      cases hasked
      obtain ⟨made, hmade, rfl⟩ := Option.map_eq_some_iff.1 honly
      obtain ⟨parts, -, hmade⟩ := Option.bind_eq_some_iff.1 hmade
      cases hmade
      cases isNumbered with
      | true =>
          cases hkeys
          cases List.mem_singleton.1 hkey
          exact ⟨rfl, rfl⟩
      | false =>
          cases hkeys
          cases List.mem_singleton.1 hkey
          exact ⟨rfl, rfl⟩

/-- A table that is declared with plain columns is plain. -/
theorem isPlain_of_ofTable? {shape : Table} {definition : TableDefinition} {name : String}
    {t : StoredTable} (h : TableDefinition.ofTable? shape = some definition)
    (ht : StoredTable.ofDefinition? name definition = some t) : t.IsPlain := by
  obtain ⟨ds, cs, asked, keys, hmade⟩ := exists_madeOfShape h ht
  cases hmade.eq
  refine ⟨fun c hc => ?_, fun key hkey => ?_, ?_, ?_⟩
  · obtain ⟨d, hd, hof⟩ := exists_of_mem_mapM hmade.columns hc
    exact (hmade.plain d hd).generated c hof
  · exact (primary_of_keyConstraints hmade.keysAsked _ hmade.keysJoined hkey).1
  · exact checks_of_isPlain hmade.plain
  · exact references_of_isPlain hmade.plain

namespace Database

/-- A database of plain tables, whose indexes read columns and no expressions. -/
structure IsPlain (db : Database) : Prop where
  tables : ∀ t ∈ db.tables, t.IsPlain
  /-- A name that is no column stands for itself. -/
  indexes : ∀ i ∈ db.indexes, ∀ e, KeyPart.expression e ∈ i.parts → ∃ text, e = .value (.text text)

section

variable {db next : Database} {name table column : String} {T : Table}

theorem isPlain_empty : empty.IsPlain :=
  ⟨by simp [empty], by simp [empty]⟩

theorem isPlain_of_sameSchema {a b : Database} (h : a.SameSchema b) (hb : b.IsPlain) :
    a.IsPlain := by
  refine ⟨fun t ht => ?_, h.indexes ▸ hb.indexes⟩
  obtain ⟨u, hu, hbare⟩ := has_of_sameSchema h.symm ⟨t, ht, rfl⟩
  have hplain : u.bare.IsPlain := ⟨(hb.tables u hu).columns, (hb.tables u hu).keys,
    (hb.tables u hu).checks, (hb.tables u hu).foreignKeys⟩
  rw [hbare] at hplain
  exact ⟨hplain.columns, hplain.keys, hplain.checks, hplain.foreignKeys⟩

theorem isPlain_setTable (hdb : db.IsPlain) {t : StoredTable} (ht : t.IsPlain) :
    (db.setTable t).IsPlain := by
  refine ⟨fun u hu => ?_, hdb.indexes⟩
  obtain ⟨v, hv, rfl⟩ := List.mem_map.1 hu
  split
  · exact ht
  · exact hdb.tables v hv

theorem isPlain_settleNames (hdb : db.IsPlain) : db.settleNames.IsPlain := by
  refine ⟨hdb.tables, fun i hi e he => ?_⟩
  obtain ⟨j, hj, rfl⟩ := List.mem_map.1 hi
  obtain ⟨part, hpart, heq⟩ := List.mem_map.1 he
  -- A name that is no column becomes a literal; all other parts stay.
  cases part with
  | column word collation =>
      simp only at heq
      split at heq
      · cases heq
      · cases heq
        exact ⟨word, rfl⟩
  | expression e' =>
      cases heq
      exact hdb.indexes j hj e hpart

theorem isPlain_renameTable? {newName : String} (hdb : db.IsPlain)
    (h : db.renameTable? name newName = some next) : next.IsPlain := by
  obtain ⟨-, -, rfl⟩ := renameTable?_eq h
  refine ⟨fun t ht => ?_, fun i hi => ?_⟩
  · obtain ⟨u, hu, rfl⟩ := List.mem_map.1 ht
    have hu := hdb.tables u hu
    exact ⟨hu.columns, hu.keys, hu.checks, List.map_eq_nil_iff.2 hu.foreignKeys⟩
  · obtain ⟨j, hj, rfl⟩ := List.mem_map.1 hi
    split <;> exact hdb.indexes j hj

theorem isPlain_addColumn? {added : Column} {definition : ColumnDefinition} (hdb : db.IsPlain)
    (hdefinition : ColumnDefinition.ofColumn? added = some definition)
    (h : db.addColumn? table definition = some next) : next.IsPlain := by
  obtain ⟨t, asked, c, wider, ht, hasked, -, hgenerated, -, -, hcolumns, hkeys, hchecks,
    hforeignKeys, rfl⟩ := addColumn?_eq h
  have hadded := isPlain_of_ofColumn? hdefinition
  have ht := hdb.tables t (sameName_of_table? ht).1
  refine isPlain_setTable hdb ⟨fun d hd => ?_, ?_, ?_, ?_⟩
  · rw [hcolumns] at hd
    rcases List.mem_append.1 hd with hd | hd
    · exact ht.columns d hd
    · rw [List.mem_singleton.1 hd, hgenerated]
      exact hadded.generated asked hasked
  · unfold StoredTable.primaryKey?
    rw [hkeys]
    exact ht.keys
  · rw [hchecks, ht.checks]
    exact hadded.checks _
  · rw [hforeignKeys, hadded.foreignKeys, ht.foreignKeys, List.nil_append]

theorem isPlain_dropColumn? (hdb : db.IsPlain) (h : db.dropColumn? table column = some next) :
    next.IsPlain := by
  obtain ⟨t, place, ht, -, -, -, rfl⟩ := dropColumn?_eq h
  have ht := hdb.tables t (sameName_of_table? ht).1
  refine isPlain_setTable (isPlain_settleNames hdb) ⟨fun c hc => ?_, ht.keys, ?_, ?_⟩
  · exact ht.columns c ((List.eraseIdx_sublist _ _).subset hc)
  · show t.checks.filter _ = []
    rw [ht.checks, List.filter_nil]
  · show t.foreignKeys.filter _ = []
    rw [ht.foreignKeys, List.filter_nil]

/-- What a statement of plain columns makes of a plain database is plain. -/
theorem isPlain_after? (hdb : db.Sound) (hplain : db.IsPlain) {statement : Sql.Statement}
    (h : after? db statement = some next) : next.IsPlain := by
  obtain ⟨command, hcommand, hexecute⟩ := Option.bind_eq_some_iff.1 h
  cases statement with
  | createTable name shape =>
      obtain ⟨definition, hdefinition, rfl⟩ := Option.map_eq_some_iff.1 hcommand
      obtain ⟨t, ht, -, rfl⟩ := createTable?_eq hexecute
      refine ⟨fun u hu => ?_, hplain.indexes⟩
      rcases List.mem_append.1 hu with hu | hu
      · exact hplain.tables u hu
      · rw [List.mem_singleton.1 hu]
        exact isPlain_of_ofTable? hdefinition ht
  | copyRows target source columns =>
      cases hcommand
      exact isPlain_of_sameSchema (sameSchema_copyRows? hdb.tables hexecute) hplain
  | dropTable name =>
      cases hcommand
      obtain ⟨left, hsame, rfl⟩ := dropTable?_eq hdb.tables hexecute
      have hleft := isPlain_of_sameSchema hsame hplain
      exact ⟨fun t ht => hleft.tables t (List.mem_of_mem_filter ht),
        fun i hi => hleft.indexes i (List.mem_of_mem_filter hi)⟩
  | renameTable name newName =>
      cases hcommand
      exact isPlain_renameTable? hplain hexecute
  | addColumn table added =>
      obtain ⟨definition, hdefinition, rfl⟩ := Option.map_eq_some_iff.1 hcommand
      exact isPlain_addColumn? hplain hdefinition hexecute
  | dropColumn table column =>
      cases hcommand
      exact isPlain_dropColumn? hplain hexecute
  | createIndex table index =>
      cases hcommand
      obtain ⟨-, rfl⟩ := createIndex?_ofNames hexecute
      refine ⟨hplain.tables, fun i hi e he => ?_⟩
      rcases List.mem_append.1 hi with hi | hi
      · exact hplain.indexes i hi e he
      · rw [List.mem_singleton.1 hi] at he
        obtain ⟨_, -, heq⟩ := List.mem_map.1 he
        cases heq
  | dropIndex name =>
      cases hcommand
      rw [dropIndex?_eq hexecute]
      exact ⟨hplain.tables, fun i hi => hplain.indexes i (List.mem_of_mem_filter hi)⟩

theorem isPlain_foldlM_after? (hdb : db.Sound) (hplain : db.IsPlain)
    {statements : List Sql.Statement} (h : statements.foldlM after? db = some next) :
    next.IsPlain := by
  refine (foldlM_some_of_step (P := fun db => db.Sound ∧ db.IsPlain) ?_ ⟨hdb, hplain⟩ h).2
  rintro db statement - next ⟨hdb, hplain⟩ hstep
  obtain ⟨command, -, hexecute⟩ := Option.bind_eq_some_iff.1 hstep
  exact ⟨sound_execute? hdb hexecute, isPlain_after? hdb hplain hstep⟩

/-- What statements of plain columns make of an empty database is plain. -/
theorem isPlain_of_foldlM_empty {statements : List Sql.Statement}
    (h : statements.foldlM after? empty = some db) : db.IsPlain :=
  isPlain_foldlM_after? sound_empty isPlain_empty h

/-! ### When a plain database drops a column -/

/-- Columns that are shown with a table have one name in any case only if they have one name. -/
theorem eq_of_sameName_of_hasColumn {t : StoredTable} {indexes : List StoredIndex}
    (ht : t.HasDistinctColumns) {a b : String} (ha : (t.inspect indexes).hasColumn a = true)
    (hb : (t.inspect indexes).hasColumn b = true) (h : sameName a b = true) : a = b := by
  obtain ⟨c, hc, -, rfl⟩ := hasColumn_inspect.1 ha
  obtain ⟨d, hd, -, rfl⟩ := hasColumn_inspect.1 hb
  rw [List.inj_on_of_nodup_map ht hc hd (sameName_iff.1 h)]

/-- In a plain table nothing but its primary key reads a column. -/
theorem isRead_of_isPlain {t : StoredTable} {indexes : List StoredIndex} (ht : t.IsPlain)
    (hdistinct : t.HasDistinctColumns)
    (hkeyed : ∀ name ∈ t.inspectKey, (t.inspect indexes).hasColumn name = true)
    (hspares : (t.inspect indexes).Spares column) : isRead t column = false := by
  simp only [isRead, ht.checks, ht.foreignKeys, List.filter_nil, List.any_nil, Bool.or_false,
    Bool.or_eq_false_iff, List.any_eq_false]
  constructor
  · intro key hkey hread
    obtain ⟨⟨name, collation⟩, hpart, hsame⟩ := List.any_eq_true.1 hread
    have hname : name ∈ t.inspectKey := by
      rw [StoredTable.inspectKey, List.mem_eraseDups, StoredTable.primaryColumns,
        ht.keys key hkey]
      exact List.mem_map_of_mem hpart
    have heq := eq_of_sameName_of_hasColumn hdistinct (hkeyed name hname) hspares.there hsame
    exact hspares.key (heq ▸ hname)
  · intro c hc
    rw [ht.columns c (List.mem_of_mem_filter hc)]
    exact Bool.false_ne_true

/-- In a plain database an index that reads a column is shown with that column. -/
theorem mentions_of_isPlain (hdb : db.Sound) (hplain : db.IsPlain) {t : StoredTable}
    (ht : t.HasDistinctColumns) (hspares : (t.inspect (db.indexesOf table)).Spares column) :
    (db.indexesOf table).any (fun i => i.mentions column) = false := by
  rw [List.any_eq_false]
  intro i hi hread
  obtain ⟨part, hpart, hmentions⟩ := List.any_eq_true.1 hread
  cases part with
  | column word collation =>
      obtain ⟨c, hc, -, rfl⟩ := hasColumn_inspect.1 hspares.there
      have hfound : t.column? word = some c := by
        rw [← column?_of_mem ht hc]
        unfold StoredTable.column?
        refine List.find?_congr fun d _ => ?_
        exact sameName_right hmentions d.name
      have hindexes : ((db.indexesOf table).map fun i => Text.lowerAscii i.name).Nodup :=
        hdb.indexes.sublist (List.filter_sublist.map _)
      refine hspares.indexed ((get?_indexes_inspect hindexes).2 ⟨i, hi, rfl, rfl⟩) ?_
      exact List.mem_filterMap.2 ⟨.column word collation, hpart,
        congrArg (Option.map StoredColumn.name) hfound⟩
  | expression e =>
      obtain ⟨text, rfl⟩ := hplain.indexes i (List.mem_of_mem_filter hi) e hpart
      cases hmentions

/-- A plain database drops a column that nothing reads just if it is not the last one. -/
theorem dropColumn?_isSome_iff (hdb : db.Sound) (hplain : db.IsPlain)
    (hT : db.inspect.tables.get? table = some T)
    (hkeyed : ∀ name ∈ T.primaryKey, T.hasColumn name = true) (hspares : T.Spares column) :
    (db.dropColumn? table column).isSome = true ↔ T.KeepsOther column := by
  obtain ⟨t, ht, -, -, rfl⟩ := exists_of_get?_inspect hdb hT
  have htable := (sameName_of_table? ht).1
  have hdistinct := hdb.columns t htable
  obtain ⟨own, hown, -, hname⟩ := hasColumn_inspect.1 hspares.there
  obtain ⟨place, hplace⟩ : ∃ place, t.position? column = some place := by
    rw [← Option.isSome_iff_exists, StoredTable.position?, List.findIdx?_isSome, List.any_eq_true]
    exact ⟨own, hown, by rw [hname, sameName_self]⟩
  have hread := isRead_of_isPlain (hplain.tables t htable) hdistinct hkeyed hspares
  have hindexed := mentions_of_isPlain hdb hplain hdistinct hspares
  have hleft : (withoutColumn t column place).columns.any (fun c => c.generated.isNone) = true ↔
      (t.inspect (db.indexesOf table)).KeepsOther column := by
    rw [columns_withoutColumn hdistinct hplace]
    simp only [List.any_eq_true, List.mem_filter, Bool.not_eq_true', Option.isNone_iff_eq_none]
    constructor
    · rintro ⟨c, ⟨hc, hother⟩, hgenerated⟩
      exact ⟨c.name, ne_of_not_sameName hother, hasColumn_inspect.2 ⟨c, hc, hgenerated, rfl⟩⟩
    · rintro ⟨other, hne, hother⟩
      obtain ⟨c, hc, hgenerated, rfl⟩ := hasColumn_inspect.1 hother
      refine ⟨c, ⟨hc, ?_⟩, hgenerated⟩
      rw [Bool.eq_false_iff]
      exact fun hsame => hne (eq_of_sameName_of_hasColumn hdistinct hother hspares.there hsame)
  rw [← hleft]
  simp only [dropColumn?, ht, hplace, hread, hindexed, bind, Option.bind_some, Bool.false_or]
  cases (withoutColumn t column place).columns.any fun c => c.generated.isNone <;> rfl

/-! ### The database at a point of a difference -/

theorem isHidden_congr {a b : String} (h : sameName a b = true) : isHidden a = isHidden b := by
  simp only [isHidden, sameName_iff.1 h]

/-- Indexes on a table that is not shown leave what is shown as it is. -/
theorem inspect_createIndexes_of_isHidden (hhidden : isHidden name = true) {indexes : List Index}
    (hdb : db.Regular)
    (hcolumns : ∀ t, db.table? name = some t → ∀ index ∈ indexes, ∀ column ∈ index.columns,
      t.hasColumn column = true)
    (h : (indexes.map (Sql.Statement.createIndex name)).foldlM after? db = some next) :
    next.Regular ∧ next.inspect = db.inspect := by
  induction indexes generalizing db with
  | nil =>
      cases h
      exact ⟨hdb, rfl⟩
  | cons index indexes ih =>
      obtain ⟨command, middle, hcommand, hexecute, hrest⟩ := foldlM_after?_cons_iff.1 h
      cases hcommand
      have hmiddle : middle.Regular := ⟨sound_createIndex? hdb.sound hexecute,
        namesColumns_createIndex? hdb.names
          (fun t ht => hcolumns t ht index List.mem_cons_self) hexecute⟩
      obtain ⟨-, rfl⟩ := createIndex?_ofNames hexecute
      obtain ⟨hnext, hinspect⟩ := ih hmiddle
        (fun t ht other hother => hcolumns t ht other (List.mem_cons_of_mem _ hother)) hrest
      refine ⟨hnext, hinspect.trans (Realm.ext_get? fun key => ?_)⟩
      rw [get?_inspect hmiddle.sound, get?_inspect hdb.sound]
      show (db.table? key).bind (told (List.filter _ (db.indexes ++ [_])) key) = _
      cases hsame : sameName name key with
      | true =>
          have hkey : isHidden key = true := (isHidden_congr hsame).symm.trans hhidden
          cases db.table? key <;> simp [told, hkey]
      | false =>
          have hother : [storedIndex name index].filter (fun i => sameName i.table key) = [] := by
            simp [storedIndex, hsame]
          rw [List.filter_append, hother, List.append_nil]
          rfl

/-- A table has the columns that it was declared with. -/
theorem hasColumn_of_isOf {t : StoredTable} {shape : ProjectHub.Table} (hof : t.IsOf name shape)
    (h : shape.hasColumn column = true) : t.hasColumn column = true := by
  obtain ⟨c, hc, rfl⟩ := Table.hasColumn_iff.1 h
  have hmem : c.readBack ∈ t.columns.map StoredColumn.inspect :=
    hof.columns ▸ List.mem_map_of_mem hc
  obtain ⟨d, hd, hsame⟩ := List.mem_map.1 hmem
  have hname : d.name = c.name := congrArg Column.name hsame
  rw [← hname, StoredTable.hasColumn, column?_of_mem hof.distinct hd]
  rfl

/-- A new table that is not shown leaves what is shown as it is. -/
theorem inspect_addTable_of_isHidden {t : ProjectHub.Table} (hdb : db.Regular)
    (hwell : t.WellFormed) (hnormal : ∀ column ∈ t.columns, column.IsNormal)
    (hhidden : isHidden t.name = true)
    (h : (Sql.Statement.ofChange (.addTable t)).foldlM after? db = some next) :
    next.Regular ∧ next.inspect = db.inspect := by
  obtain ⟨command, middle, hcommand, hexecute, hrest⟩ := foldlM_after?_cons_iff.1 h
  obtain ⟨definition, hplain, rfl⟩ := Option.map_eq_some_iff.1 hcommand
  have hcreate : db.createTable? t.name definition = some middle := hexecute
  have hmiddle : middle.Regular := ⟨sound_createTable? hdb.sound hcreate,
    namesColumns_createTable? hdb.sound hdb.names hcreate⟩
  obtain ⟨hnone, hinspect⟩ := inspect_createTable? hdb.sound hwell hnormal hplain hcreate
  rw [hhidden, if_pos rfl] at hinspect
  have hcolumns : ∀ u, middle.table? t.name = some u → ∀ index ∈ t.indexes.values,
      ∀ column ∈ index.columns, u.hasColumn column = true := by
    intro u hu index hindex column hcolumn
    obtain ⟨stored, hstored, -, rfl⟩ := createTable?_eq hcreate
    rw [table?_append, hnone, Option.none_or, Option.ite_none_right_eq_some] at hu
    cases hu.2
    obtain ⟨e, he, rfl⟩ := List.mem_map.1 hindex
    exact hasColumn_of_isOf (isOf_of_ofTable? hwell hnormal hplain hstored)
      (hwell.indexed (NameMap.mem_toList_iff.1 he) column hcolumn)
  obtain ⟨hnext, hlast⟩ := inspect_createIndexes_of_isHidden hhidden hmiddle hcolumns hrest
  exact ⟨hnext, hlast.trans hinspect⟩

section

variable {current desired : Realm} (hdesired : desired.WellFormed) (hnormal : desired.IsNormal)
include hdesired hnormal

/-- The changes for one name leave all other tables alone. -/
theorem sameBut_diffAt (hdb : db.Regular)
    (hat : db.inspect.tables.get? name = current.tables.get? name)
    (h : (Sql.Statement.ofChanges (current.diffAt desired name)).foldlM after? db = some next) :
    next.Regular ∧ Realm.SameBut name next.inspect db.inspect := by
  by_cases hshown : ∀ t, .addTable t ∈ current.diffAt desired name → isHidden t.name = false
  · obtain ⟨hnext, hsame, -⟩ := agrees_diffAt hdb hdesired hnormal hat hshown h
    exact ⟨hnext, hsame⟩
  · -- The changes are those of a new table that is not shown, so what is shown stays.
    push Not at hshown
    obtain ⟨t, ht, hhidden⟩ := hshown
    have hadded : current.diffAt desired name = [.addTable t] ∧
        desired.tables.get? name = some t := by
      rcases Realm.diffAt_cases current desired name with ⟨-, hnone⟩ | ⟨after, -, hafter, hadd⟩ |
        ⟨before, -, -, hdrop⟩ | ⟨before, after, -, -, hrebuild⟩ | ⟨before, after, -, -, -, hat⟩
      · simp [hnone] at ht
      · rw [hadd, List.mem_singleton, SchemaChange.addTable.injEq] at ht
        exact ht ▸ ⟨hadd, hafter⟩
      · simp [hdrop] at ht
      · simp [hrebuild] at ht
      · simp [hat, Table.changesInPlace_eq] at ht
    rw [hadded.1, Sql.Statement.ofChanges, List.flatMap_singleton] at h
    obtain ⟨hnext, hinspect⟩ := inspect_addTable_of_isHidden hdb (hdesired.tables hadded.2)
      (hnormal hadded.2) (by simpa using hhidden) h
    exact ⟨hnext, fun _ _ => by rw [hinspect]⟩

/-- The changes for some names leave all other tables alone. -/
theorem kept_flatMap_diffAt (names : List String) (hdistinct : names.Nodup) (hdb : db.Regular)
    (hat : ∀ name ∈ names, db.inspect.tables.get? name = current.tables.get? name)
    (h : (Sql.Statement.ofChanges (names.flatMap (current.diffAt desired))).foldlM after? db =
      some next) :
    next.Regular ∧
      ∀ name, name ∉ names → next.inspect.tables.get? name = db.inspect.tables.get? name := by
  induction names generalizing db with
  | nil =>
      cases h
      exact ⟨hdb, fun _ _ => rfl⟩
  | cons name names ih =>
      obtain ⟨hfresh, hrest⟩ := List.nodup_cons.1 hdistinct
      rw [List.flatMap_cons, Sql.Statement.ofChanges, List.flatMap_append, List.foldlM_append] at h
      obtain ⟨middle, hfirst, hothers⟩ := Option.bind_eq_some_iff.1 h
      obtain ⟨hmiddle, hsame⟩ :=
        sameBut_diffAt hdesired hnormal hdb (hat name List.mem_cons_self) hfirst
      obtain ⟨hnext, hkept⟩ := ih hrest hmiddle
        (fun other hother => (hsame other fun heq => hfresh (heq ▸ hother)).trans
          (hat other (List.mem_cons_of_mem _ hother))) hothers
      refine ⟨hnext, fun other hother => ?_⟩
      obtain ⟨hne, hnotin⟩ := not_or.1 fun hor => hother (List.mem_cons.2 hor)
      rw [hkept other hnotin, hsame other hne]

/-- A database that has carried out a difference up to a point shows the table in hand as it is at
that point. -/
theorem inspect_of_dropsAt (hdb : db.Regular) {done : List SchemaChange} {names : List String}
    {before after : ProjectHub.Table} {dropped left : List String}
    (hpoint : db.inspect.DropsAt desired done table column names before after dropped left)
    (h : (Sql.Statement.ofChanges done).foldlM after? db = some next) :
    next.Regular ∧
      next.inspect.tables.get? table = some (before.narrowed after dropped) := by
  rw [hpoint.eq, Sql.Statement.ofChanges, List.flatMap_append, List.foldlM_append] at h
  obtain ⟨middle, hfirst, hrest⟩ := Option.bind_eq_some_iff.1 h
  obtain ⟨hmiddle, hkept⟩ := kept_flatMap_diffAt hdesired hnormal names hpoint.distinct hdb
    (fun _ _ => rfl) hfirst
  have hsame : (before.narrowing after dropped).map (SchemaChange.mapColumn Column.readBack) =
      before.narrowing after dropped := by
    simp only [Table.narrowing, List.map_append, List.map_map]
    rfl
  have hmade := Table.narrowing_changes ((named_inspect hdb.sound).distinct hpoint.old) hpoint.lost
  have hown := hdesired.ownName hpoint.new
  obtain ⟨hnext, hinspect⟩ := inspect_changes hmiddle
    (fun change hchange => by
      rcases Table.mem_narrowing hchange with ⟨_, rfl⟩ | ⟨_, rfl⟩ <;> exact hown)
    (fun table column hchange => by
      rcases Table.mem_narrowing hchange with ⟨_, heq⟩ | ⟨_, heq⟩ <;> cases heq)
    ((hkept table hpoint.later).trans hpoint.old) (hsame.symm ▸ hmade) hrest
  refine ⟨hnext, ?_⟩
  rw [hinspect]
  exact NameMap.get?_insert_self _ _ _

end

end

end Database

end Sqlite

namespace Realm

open Sql Sqlite

section

variable {current desired : Realm} {table column : String} {names : List String}
  {before after : Table} {dropped left : List String} {done : List SchemaChange}

/-- At a point of a difference a plain database drops the column just if another one is left. -/
theorem DropsAt.after?_isSome_iff (hc : current.WellFormed) (hd : desired.WellFormed)
    (hnormal : desired.IsNormal)
    (h : DropsAt current desired done table column names before after dropped left)
    {db middle : Database} (hdb : db.Regular) (hplain : db.IsPlain) (hinspect : db.inspect = current)
    (hdone : (Statement.ofChanges done).foldlM Database.after? db = some middle) :
    (middle.after? (.dropColumn table column)).isSome = true ↔
      (before.narrowed after dropped).KeepsOther column := by
  subst hinspect
  obtain ⟨hmiddle, hT⟩ := Database.inspect_of_dropsAt hd hnormal hdb h hdone
  have hold := hc.tables h.old
  have hnew := hd.tables h.new
  exact Database.dropColumn?_isSome_iff hmiddle.sound
    (Database.isPlain_foldlM_after? hdb.sound hplain hdone) hT
    (h.inPlace.key_narrowed hnew hold.key h.lost)
    (h.inPlace.spares_narrowed hnew hold.distinct h.lost)

end

section Drops

variable {current desired : Realm} (hcurrent : current.WellFormed) (hdesired : desired.WellFormed)
include hcurrent hdesired

/-- Wherever a difference drops a column, the changes before it can be carried out, the column is
then there, and neither the primary key nor an index that is left is on it; a plain database that
has come so far drops it just if another column is left. That is so at every such point just if no
table that is changed in place loses all its columns, and with such a table the statements of the
difference are refused as a whole. -/
theorem drops_accepted_iff :
    (∀ done rest table column,
      current.diff desired = done ++ .dropColumn table column :: rest →
        ∃ reached t, current.carryOutAll? done = some reached ∧
          reached.tables.get? table = some t ∧ t.Spares column ∧
          ∀ db middle : Database, db.Regular → db.IsPlain → db.inspect = current →
            desired.IsNormal →
            (Statement.ofChanges done).foldlM Database.after? db = some middle →
            ((middle.after? (.dropColumn table column)).isSome = true ↔ t.KeepsOther column)) ∧
    ((∀ done rest table column reached t,
        current.diff desired = done ++ .dropColumn table column :: rest →
          current.carryOutAll? done = some reached → reached.tables.get? table = some t →
            t.KeepsOther column) ↔
      current.KeepsColumns desired) ∧
    (¬current.KeepsColumns desired → ∀ db : Database, db.Regular → db.IsPlain →
      db.inspect = current → desired.IsNormal →
      (∀ statement ∈ Statement.ofChanges (current.diff desired),
        (Command.plain? statement).isSome = true) →
      db.run? (Statement.ofChanges (current.diff desired)) = none) := by
  refine ⟨?_, keepsOther_iff_keepsColumns hcurrent hdesired, ?_⟩
  · intro done rest table column hdiff
    obtain ⟨names, before, after, dropped, left, hpoint⟩ := dropsAt_of_diff_eq hdesired hdiff
    obtain ⟨reached, hreached, ht⟩ := hpoint.carryOutAll? hcurrent hdesired
    refine ⟨reached, _, hreached, ht, hpoint.inPlace.spares_narrowed (hdesired.tables hpoint.new)
      (hcurrent.tables hpoint.old).distinct hpoint.lost, ?_⟩
    intro db middle hdb hplain hinspect hnormal hdone
    exact hpoint.after?_isSome_iff hcurrent hdesired hnormal hdb hplain hinspect hdone
  · intro hkeeps db hdb hplain hinspect hnormal hstatements
    rw [← keepsOther_iff_keepsColumns hcurrent hdesired] at hkeeps
    -- Had all statements been carried out, then each drop among them, and another column would
    -- have been left wherever one is dropped.
    by_contra hrun
    obtain ⟨next, hnext⟩ := Option.ne_none_iff_exists'.1 hrun
    have hfold := Database.foldlM_after? hstatements hnext
    refine hkeeps fun done rest table column reached t hdiff hreached ht => ?_
    obtain ⟨names, before, after, dropped, left, hpoint⟩ := dropsAt_of_diff_eq hdesired hdiff
    rw [hdiff, Statement.ofChanges, List.flatMap_append, List.foldlM_append] at hfold
    obtain ⟨middle, hdone, hrest⟩ := Option.bind_eq_some_iff.1 hfold
    rw [hpoint.eq_narrowed hcurrent hdesired hreached ht,
      ← hpoint.after?_isSome_iff hcurrent hdesired hnormal hdb hplain hinspect hdone]
    rw [List.flatMap_cons, Statement.ofChange, List.singleton_append, List.foldlM_cons] at hrest
    obtain ⟨dropped, hdropped, -⟩ := Option.bind_eq_some_iff.1 hrest
    exact Option.isSome_iff_exists.2 ⟨dropped, hdropped⟩

end Drops

/-- One table with one column. -/
def holding (column : String) (nullable : Bool) : Realm where
  tables := .ofList [("t", ⟨"t", [⟨column, "INTEGER", nullable, none⟩], [], .empty⟩)]

/-- A database with that table. -/
def storedColumn : Database where
  tables := [{
    name := "t"
    columns := [{ name := "a", type := ⟨"INTEGER", .integer, true⟩, notNull := some .refuse }] }]
  indexes := []

theorem holds_storedColumn : storedColumn.Regular ∧ storedColumn.IsPlain ∧
    storedColumn.inspect = holding "a" false := by
  refine ⟨⟨⟨?_, ?_, ?_, ?_⟩, ?_⟩, ⟨?_, ?_⟩, by decide +kernel⟩
  · simp [storedColumn, Database.HasDistinctTables]
  · simp [storedColumn]
  · simp [storedColumn, StoredTable.HasDistinctColumns]
  · simp [storedColumn]
  · simp [storedColumn, Database.NamesColumns]
  · simp only [storedColumn, List.forall_mem_singleton]
    exact ⟨by simp, by simp, rfl, rfl⟩
  · simp [storedColumn]

/-- Notes keep a column while they lose one; the only column of a table cannot be replaced. -/
theorem drops_refused_holding :
    ((plainNotes.WellFormed ∧ titledNotes.WellFormed) ∧
      ∀ done rest table column reached t,
        plainNotes.diff titledNotes = done ++ .dropColumn table column :: rest →
          plainNotes.carryOutAll? done = some reached → reached.tables.get? table = some t →
            t.KeepsOther column) ∧
    ((holding "a" false).WellFormed ∧ (holding "b" true).WellFormed) ∧
    (storedColumn.Regular ∧ storedColumn.IsPlain ∧ storedColumn.inspect = holding "a" false) ∧
    storedColumn.run? (Statement.ofChanges ((holding "a" false).diff (holding "b" true))) =
      none := by
  have hnotes : plainNotes.WellFormed ∧ titledNotes.WellFormed := by decide
  have hholding : (holding "a" false).WellFormed ∧ (holding "b" true).WellFormed := by decide
  have hkeeps : plainNotes.KeepsColumns titledNotes := by decide +kernel
  have hempties : ¬(holding "a" false).KeepsColumns (holding "b" true) := by decide +kernel
  have hall : ∀ e ∈ (holding "b" true).tables.toList, ∀ column ∈ e.2.columns,
      normalizeType column.sqlType = column.sqlType := by
    decide +kernel
  have hnormal : (holding "b" true).IsNormal := fun ht column hcolumn =>
    hall _ (NameMap.mem_toList_iff.2 ht) column hcolumn
  obtain ⟨hregular, hplain, hinspect⟩ := holds_storedColumn
  refine ⟨⟨hnotes, (drops_accepted_iff hnotes.1 hnotes.2).2.1.2 hkeeps⟩, hholding,
    ⟨hregular, hplain, hinspect⟩, ?_⟩
  exact (drops_accepted_iff hholding.1 hholding.2).2.2 hempties storedColumn hregular hplain hinspect
    hnormal (by decide +kernel)

example : Statement.ofChanges ((holding "a" false).diff (holding "b" true)) =
    [.dropColumn "t" "a", .addColumn "t" ⟨"b", "INTEGER", true, none⟩] := by
  decide +kernel

end Realm

end ProjectHub
