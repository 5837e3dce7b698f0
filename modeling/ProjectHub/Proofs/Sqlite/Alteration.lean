import ProjectHub.Proofs.Sqlite.Inspection

/-!
# What a database tells after an alteration

A column or an index that comes or goes is told with its table; the rest of the
realm stays. An index is told by the columns that its names find, and these are
the same before and after.
-/

namespace ProjectHub.Sqlite.Database

variable {db next : Database} {name table column : String} {T : Table}

/-! ## Columns -/

/-- An index is told the same of two tables that have the same columns under the names in it. -/
theorem inspectIndex_congr {t u : StoredTable} {i : StoredIndex}
    (h : ∀ word collation, KeyPart.column word collation ∈ i.parts → t.column? word = u.column? word) :
    t.inspectIndex i = u.inspectIndex i := by
  unfold StoredTable.inspectIndex
  congr 1
  refine List.filterMap_congr fun part hpart => ?_
  cases part with
  | column word collation => exact congrArg (Option.map _) (h word collation hpart)
  | expression e => rfl

theorem hasColumn_inspect {t : StoredTable} {indexes : List StoredIndex} {name : String} :
    (t.inspect indexes).hasColumn name = true ↔
      ∃ c ∈ t.columns, c.generated = none ∧ c.name = name := by
  rw [Table.hasColumn_iff]
  simp only [StoredTable.inspect, List.mem_map, List.mem_filter, Option.isNone_iff_eq_none]
  constructor
  · rintro ⟨_, ⟨c, ⟨hc, hgenerated⟩, rfl⟩, hname⟩
    exact ⟨c, hc, hgenerated, hname⟩
  · rintro ⟨c, hc, hgenerated, hname⟩
    exact ⟨c.inspect, ⟨c, ⟨hc, hgenerated⟩, rfl⟩, hname⟩

theorem column?_of_mem {t : StoredTable} (ht : t.HasDistinctColumns) {c : StoredColumn}
    (hc : c ∈ t.columns) : t.column? c.name = some c :=
  find?_of_name ht hc

theorem hasColumn_of_inspect {t : StoredTable} {indexes : List StoredIndex} {name : String}
    (h : (t.inspect indexes).hasColumn name = true) : t.hasColumn name = true := by
  obtain ⟨c, hc, -, rfl⟩ := hasColumn_inspect.mp h
  unfold StoredTable.hasColumn StoredTable.column?
  rw [List.find?_isSome]
  exact ⟨c, hc, sameName_self _⟩

theorem mem_of_setTable {t wider : StoredTable} (ht : db.table? table = some t)
    (hname : sameName wider.name table = true) : wider ∈ (db.setTable wider).tables := by
  have hfound : (db.setTable wider).table? table = some wider := by
    rw [table?_setTable, ht, Option.map_some, if_pos hname]
  exact (sameName_of_table? hfound).1

section Rewritten

variable {t u : StoredTable} (hname : u.name = t.name)
  (hfound : ∀ i ∈ db.indexesOf t.name, ∀ word collation, KeyPart.column word collation ∈ i.parts →
    u.column? word = t.column? word)

include hname hfound

/-- Names in the indexes on a table that is rewritten are columns where they find what they found. -/
theorem namesColumns_setTable (hnames : db.NamesColumns) (ht : db.table? t.name = some t) :
    (db.setTable u).NamesColumns := by
  intro i hi v hv word collation hpart
  rw [table?_setTable] at hv
  obtain ⟨w, hw, rfl⟩ := Option.map_eq_some_iff.mp hv
  have hword := hnames i hi w hw word collation hpart
  split
  · rename_i hsame
    rw [hname] at hsame
    rw [← table?_congr hsame, ht] at hw
    cases hw
    have hon : i ∈ db.indexesOf t.name :=
      List.mem_filter.mpr ⟨hi, by rw [sameName_comm]; exact hsame⟩
    unfold StoredTable.hasColumn
    rw [hfound i hon word collation hpart]
    exact hword
  · exact hword

/-- A table that is rewritten under its keys is told with its new columns, and nothing else of the
realm is told otherwise. -/
theorem inspect_setTable_columns (hdb : db.Sound) (ht : db.table? t.name = some t)
    (hshown : isHidden t.name = false) (hkeys : u.keys = t.keys) (hu : u.HasDistinctColumns) :
    (db.setTable u).inspect = ⟨db.inspect.tables.insert t.name
      { t.inspect (db.indexesOf t.name) with
        columns := (u.columns.filter fun c => c.generated.isNone).map StoredColumn.inspect }⟩ := by
  have hindexes : ((db.indexesOf t.name).map fun i => (i.name, u.inspectIndex i)) =
      (db.indexesOf t.name).map fun i => (i.name, t.inspectIndex i) :=
    List.map_congr_left fun i hi => by rw [inspectIndex_congr (hfound i hi)]
  rw [inspect_setTable hdb ht rfl hshown hname hu]
  simp only [StoredTable.inspect, StoredTable.inspectKey, StoredTable.primaryColumns,
    StoredTable.primaryKey?, hname, hkeys, hindexes]

end Rewritten

/-- A column that is added is shown at the end, as it is read back. -/
theorem inspect_addColumn? (hdb : db.Sound) (hnames : db.NamesColumns) {added : Column}
    {definition : ColumnDefinition} (hnormal : added.IsNormal)
    (hplain : ColumnDefinition.ofColumn? added = some definition)
    (hT : db.inspect.tables.get? table = some T)
    (h : db.addColumn? table definition = some next) :
    T.hasColumn added.name = false ∧ next.NamesColumns ∧
      next.inspect =
        ⟨db.inspect.tables.insert table { T with columns := T.columns ++ [added.readBack] }⟩ := by
  have hnext := sound_addColumn? hdb h
  obtain ⟨t, ht, rfl, hshown, rfl⟩ := exists_of_get?_inspect hdb hT
  obtain ⟨t', asked, c, wider, ht', hasked, hinspect, hgenerated, hnew, hname, hcolumns, hkeys, -, -,
    rfl⟩ := addColumn?_eq h
  rw [ht] at ht'
  cases ht'
  obtain ⟨asked', hasked', hof⟩ := stored_of_ofColumn? hnormal hplain
  rw [hasked] at hasked'
  cases hasked'
  have htold : c.inspect = added.readBack := hinspect.trans hof.inspect
  have hplainColumn : c.generated = none := hgenerated.trans hof.generated
  have hcname : c.name = added.name := congrArg Column.name htold
  have hwider : wider.HasDistinctColumns :=
    hnext.columns wider (mem_of_setTable ht (by rw [hname, sameName_self]))
  have hfound {word : String} (hword : t.hasColumn word = true) :
      wider.column? word = t.column? word := by
    obtain ⟨d, hd⟩ := Option.isSome_iff_exists.mp hword
    rw [hd]
    unfold StoredTable.column? at hd ⊢
    rw [hcolumns, List.find?_append, hd, Option.some_or]
  have hindexed (i) (hi : i ∈ db.indexesOf t.name) (word collation)
      (hpart : KeyPart.column word collation ∈ i.parts) : wider.column? word = t.column? word := by
    obtain ⟨hi, hon⟩ := List.mem_filter.mp hi
    exact hfound (hnames i hi t (by rw [table?_congr hon, ht]) word collation hpart)
  refine ⟨?_, namesColumns_setTable hname hindexed hnames ht, ?_⟩
  · rw [Bool.eq_false_iff]
    intro hthere
    rw [← hcname] at hthere
    rw [hasColumn_of_inspect hthere] at hnew
    cases hnew
  · rw [inspect_setTable_columns hname hindexed hdb ht hshown hkeys hwider, hcolumns]
    simp only [StoredTable.inspect, List.filter_append, List.map_append, List.filter_cons,
      hplainColumn, Option.isNone_none, if_true, List.filter_nil, List.map_cons, List.map_nil, htold]

/-- Where names in indexes are columns, there is none to settle. -/
theorem settleNames_of_namesColumns (hdb : db.Sound) (hnames : db.NamesColumns) :
    db.settleNames = db := by
  have hindexes : db.settleNames.indexes = db.indexes := by
    refine (List.map_congr_left fun i hi => ?_).trans (List.map_id _)
    obtain ⟨t, ht⟩ := Option.isSome_iff_exists.mp (hdb.owned i hi)
    refine congrArg (fun parts => ({ i with parts := parts } : StoredIndex))
      ((List.map_congr_left fun part hpart => ?_).trans (List.map_id _))
    cases part with
    | column word collation => simp [ht, hnames i hi t ht word collation hpart]
    | expression e => rfl
  show { db with indexes := db.settleNames.indexes } = db
  rw [hindexes]

/-- Of elements that a property holds for at most once, erasing the first leaves all others. -/
theorem eraseIdx_of_findIdx? {α : Type} {p : α → Bool} {l : List α} {place : Nat}
    (hplace : l.findIdx? p = some place) (hunique : l.Pairwise fun a b => p a = true → p b = false) :
    l.eraseIdx place = l.filter fun a => !p a := by
  induction l generalizing place with
  | nil => cases hplace
  | cons a l ih =>
      obtain ⟨hfirst, hrest⟩ := List.pairwise_cons.mp hunique
      rw [List.findIdx?_cons] at hplace
      cases ha : p a with
      | true =>
          rw [ha, if_pos rfl] at hplace
          cases hplace
          have hall : (l.filter fun b => !p b) = l :=
            List.filter_eq_self.mpr fun b hb => by rw [hfirst b hb ha]; rfl
          simp [ha, hall]
      | false =>
          rw [ha, if_neg Bool.false_ne_true] at hplace
          obtain ⟨rest, hfound, rfl⟩ := Option.map_eq_some_iff.mp hplace
          simp [ha, ih hfound hrest]

/-- The columns that are left are those of other names. -/
theorem columns_withoutColumn {t : StoredTable} (ht : t.HasDistinctColumns) {place : Nat}
    (hplace : t.position? column = some place) :
    (withoutColumn t column place).columns = t.columns.filter fun c => !sameName c.name column := by
  refine eraseIdx_of_findIdx? hplace ?_
  have hdistinct : t.columns.Pairwise fun a b => Text.lowerAscii a.name ≠ Text.lowerAscii b.name :=
    List.pairwise_map.mp ht
  refine hdistinct.imp fun {a b} hne ha => ?_
  rw [Bool.eq_false_iff]
  intro hb
  exact hne ((sameName_iff.mp ha).trans (sameName_iff.mp hb).symm)

theorem column?_withoutColumn {t : StoredTable} (ht : t.HasDistinctColumns) {place : Nat}
    (hplace : t.position? column = some place) {word : String}
    (hword : sameName word column = false) :
    (withoutColumn t column place).column? word = t.column? word := by
  unfold StoredTable.column?
  rw [columns_withoutColumn ht hplace, List.find?_filter]
  refine List.find?_congr fun c _ => ?_
  cases hc : sameName c.name word with
  | false => simp
  | true => rw [sameName_left hc, hword]; rfl

/-- A column that is told of is left out by its spelled name: no other column goes by it. -/
theorem columns_inspect_withoutColumn {t : StoredTable} (ht : t.HasDistinctColumns) {place : Nat}
    (hplace : t.position? column = some place) {indexes : List StoredIndex}
    (hcolumn : (t.inspect indexes).hasColumn column = true) :
    ((withoutColumn t column place).inspect indexes).columns =
      (t.inspect indexes).columns.filter fun c => c.name ≠ column := by
  obtain ⟨c, hc, -, hcname⟩ := hasColumn_inspect.mp hcolumn
  show (List.filter _ _).map StoredColumn.inspect = (List.map StoredColumn.inspect _).filter _
  rw [columns_withoutColumn ht hplace, List.filter_map, List.filter_filter, List.filter_filter]
  congr 1
  refine List.filter_congr fun d hd => ?_
  have hsame : sameName d.name column = decide (d.name = column) := by
    rw [Bool.eq_iff_iff, decide_eq_true_iff]
    constructor
    · intro hd'
      rw [← hcname] at hd' ⊢
      rw [List.inj_on_of_nodup_map ht hd hc (sameName_iff.mp hd')]
    · rintro rfl
      exact sameName_self _
  show _ = (decide (d.name ≠ column) && _)
  rw [hsame, Bool.and_comm, decide_not]

theorem inspect_dropColumn? (hdb : db.Sound) (hnames : db.NamesColumns)
    (hT : db.inspect.tables.get? table = some T) (hcolumn : T.hasColumn column = true)
    (h : db.dropColumn? table column = some next) :
    next.NamesColumns ∧ next.inspect = ⟨db.inspect.tables.insert table
      { T with columns := T.columns.filter fun c => c.name ≠ column }⟩ := by
  have hnext := sound_dropColumn? hdb h
  obtain ⟨t, ht, rfl, hshown, rfl⟩ := exists_of_get?_inspect hdb hT
  obtain ⟨t', place, ht', hplace, -, hindexed, rfl⟩ := dropColumn?_eq h
  rw [ht] at ht'
  cases ht'
  rw [settleNames_of_namesColumns hdb hnames] at hnext ⊢
  have hdistinct := hdb.columns t (sameName_of_table? ht).1
  have hname : (withoutColumn t column place).name = t.name := rfl
  have hkeys : (withoutColumn t column place).keys = t.keys := rfl
  have hnarrow : (withoutColumn t column place).HasDistinctColumns :=
    hnext.columns _ (mem_of_setTable ht (sameName_self t.name))
  have hspared (i) (hi : i ∈ db.indexesOf t.name) (word) (collation : Option Collation)
      (hpart : KeyPart.column word collation ∈ i.parts) :
      (withoutColumn t column place).column? word = t.column? word := by
    have hspares : i.mentions column = false := by simpa using List.any_eq_false.mp hindexed i hi
    have hmentions := List.any_eq_false.mp hspares _ hpart
    exact column?_withoutColumn hdistinct hplace (by simpa [KeyPart.mentions] using hmentions)
  refine ⟨namesColumns_setTable hname hspared hnames ht, ?_⟩
  rw [inspect_setTable_columns hname hspared hdb ht hshown hkeys hnarrow,
    ← columns_inspect_withoutColumn hdistinct hplace hcolumn]
  rfl

/-! ## Indexes -/

/-- Other indexes on a table that is shown. -/
theorem inspect_setIndexes {indexes : List StoredIndex} (hdb : db.Sound)
    (hnext : ({ db with indexes := indexes } : Database).Sound) {t : StoredTable}
    (ht : db.table? table = some t) (hown : t.name = table) (hshown : isHidden table = false)
    (hothers : ∀ key, sameName table key = false →
      (indexes.filter fun i => sameName i.table key) = db.indexesOf key) :
    ({ db with indexes := indexes } : Database).inspect = ⟨db.inspect.tables.insert table
      (t.inspect (indexes.filter fun i => sameName i.table table))⟩ := by
  refine Realm.ext_get? fun key => ?_
  rw [get?_inspect hnext, NameMap.get?_insert, get?_inspect hdb]
  show (db.table? key).bind (told (indexes.filter fun i => sameName i.table key) key) = _
  by_cases hkey : table = key
  · subst hkey
    rw [if_pos rfl, ht]
    exact told_eq_some_iff.mpr ⟨hown, hshown, rfl⟩
  · rw [if_neg hkey]
    cases hsame : sameName table key with
    | false => rw [hothers key hsame]
    | true => rw [bind_told_of_ne ht hown hsame hkey, bind_told_of_ne ht hown hsame hkey]

theorem inspectIndex_storedIndex {t : StoredTable} (ht : t.HasDistinctColumns) {index : Index}
    {indexes : List StoredIndex}
    (hcolumns : ∀ column ∈ index.columns, (t.inspect indexes).hasColumn column = true) :
    t.inspectIndex (storedIndex table index) = index := by
  have hparts : (t.inspectIndex (storedIndex table index)).columns = index.columns := by
    show List.filterMap _ (index.columns.map fun column => KeyPart.column column none) = _
    rw [List.filterMap_map]
    refine (List.filterMap_congr (g := some) fun column hcolumn => ?_).trans List.filterMap_some
    obtain ⟨c, hc, -, rfl⟩ := hasColumn_inspect.mp (hcolumns column hcolumn)
    exact congrArg (Option.map StoredColumn.name) (column?_of_mem ht hc)
  exact congrArg (fun columns => (⟨index.name, columns, index.unique⟩ : Index)) hparts

/-- An index on columns that are shown is shown with them. -/
theorem inspect_createIndex? (hdb : db.Sound) (hnames : db.NamesColumns) {index : Index}
    (hT : db.inspect.tables.get? table = some T)
    (hcolumns : ∀ column ∈ index.columns, T.hasColumn column = true)
    (h : db.createIndex? index.name table index.unique (index.columns.map KeyColumn.ofName) =
      some next) :
    next.NamesColumns ∧ next.inspect =
      ⟨db.inspect.tables.insert table { T with indexes := T.indexes.insert index.name index }⟩ := by
  have hnext := sound_createIndex? hdb h
  obtain ⟨t, ht, hown, hshown, rfl⟩ := exists_of_get?_inspect hdb hT
  refine ⟨namesColumns_createIndex? hnames ?_ h, ?_⟩
  · intro u hu column hcolumn
    rw [ht] at hu
    cases hu
    exact hasColumn_of_inspect (hcolumns column hcolumn)
  · obtain ⟨-, rfl⟩ := createIndex?_ofNames h
    rw [inspect_setIndexes hdb hnext ht hown hshown]
    · have hdistinct := hdb.columns t (sameName_of_table? ht).1
      have hadded : ((db.indexes ++ [storedIndex table index]).filter
          fun i => sameName i.table table) = db.indexesOf table ++ [storedIndex table index] := by
        rw [List.filter_append]
        simp [indexesOf, storedIndex]
      simp only [hadded, StoredTable.inspect, List.map_append, List.map_cons, List.map_nil,
        inspectIndex_storedIndex hdistinct hcolumns, NameMap.ofList, List.foldl_append,
        List.foldl_cons, List.foldl_nil]
      rfl
    · intro key hkey
      rw [List.filter_append]
      simp [indexesOf, storedIndex, hkey]

theorem get?_indexes_inspect {indexes : List StoredIndex}
    (hdistinct : (indexes.map fun i => Text.lowerAscii i.name).Nodup) {t : StoredTable}
    {name : String} {index : Index} :
    (t.inspect indexes).indexes.get? name = some index ↔
      ∃ i ∈ indexes, i.name = name ∧ t.inspectIndex i = index := by
  have hnodup : ((indexes.map fun i => (i.name, t.inspectIndex i)).map Prod.fst).Nodup := by
    rw [List.map_map]
    refine List.Nodup.of_map Text.lowerAscii ?_
    rw [List.map_map]
    exact hdistinct
  show (NameMap.ofList _).get? name = some index ↔ _
  rw [NameMap.get?_ofList_of_nodup hnodup, List.mem_map]
  simp only [Prod.mk.injEq]

/-- Of indexes that no two have one name of, the one that is left out is no longer told of. -/
theorem indexes_inspect_filter {indexes : List StoredIndex} {j : StoredIndex}
    (hdistinct : (indexes.map fun i => Text.lowerAscii i.name).Nodup) (hj : j ∈ indexes)
    (t : StoredTable) :
    (t.inspect (indexes.filter fun i => !sameName i.name j.name)).indexes =
      (t.inspect indexes).indexes.erase j.name := by
  have hleft := hdistinct.sublist
    ((List.filter_sublist (p := fun i => !sameName i.name j.name)).map _)
  refine NameMap.ext_get? fun key => Option.ext fun index => ?_
  rw [get?_indexes_inspect hleft, NameMap.get?_erase]
  by_cases hkey : j.name = key
  · subst hkey
    rw [if_pos rfl]
    refine iff_of_false ?_ (by simp)
    rintro ⟨i, hi, hname, -⟩
    have hother := (List.mem_filter.mp hi).2
    rw [Bool.not_eq_true'] at hother
    exact ne_of_not_sameName hother hname
  · rw [if_neg hkey, get?_indexes_inspect hdistinct]
    refine exists_congr fun i => ?_
    constructor
    · rintro ⟨hi, hall⟩
      exact ⟨List.mem_of_mem_filter hi, hall⟩
    · rintro ⟨hi, rfl, hinspect⟩
      refine ⟨List.mem_filter.mpr ⟨hi, ?_⟩, rfl, hinspect⟩
      rw [Bool.not_eq_true', Bool.eq_false_iff]
      intro hname
      rw [List.inj_on_of_nodup_map hdistinct hi hj (sameName_iff.mp hname)] at hkey
      exact hkey rfl

/-- An index that is shown is dropped by its name. -/
theorem inspect_dropIndex? (hdb : db.Sound) (hT : db.inspect.tables.get? table = some T)
    (hindex : T.indexes.contains name = true) (h : db.dropIndex? name = some next) :
    next.inspect =
      ⟨db.inspect.tables.insert table { T with indexes := T.indexes.erase name }⟩ := by
  have hnext := sound_dropIndex? hdb h
  obtain ⟨t, ht, hown, hshown, rfl⟩ := exists_of_get?_inspect hdb hT
  have hon : ((db.indexesOf table).map fun i => Text.lowerAscii i.name).Nodup :=
    hdb.indexes.sublist (List.filter_sublist.map _)
  obtain ⟨index, hfound⟩ := Option.isSome_iff_exists.mp hindex
  obtain ⟨j, hj, rfl, -⟩ := (get?_indexes_inspect hon).mp hfound
  rw [dropIndex?_eq h] at hnext ⊢
  rw [inspect_setIndexes hdb hnext ht hown hshown]
  · have hleft : ((db.indexes.filter fun i => !sameName i.name j.name).filter fun i =>
        sameName i.table table) = (db.indexesOf table).filter fun i => !sameName i.name j.name := by
      rw [indexesOf, List.filter_filter, List.filter_filter]
      exact List.filter_congr fun i _ => Bool.and_comm _ _
    have hshape (indexes : List StoredIndex) : t.inspect indexes =
        { t.inspect (db.indexesOf table) with indexes := (t.inspect indexes).indexes } := rfl
    rw [hleft, hshape, indexes_inspect_filter hon hj]
  · intro key hkey
    obtain ⟨hj, hjtable⟩ := List.mem_filter.mp hj
    rw [indexesOf, List.filter_filter]
    refine List.filter_congr fun i hi => ?_
    cases hname : sameName i.name j.name with
    | false => simp
    | true =>
        rw [List.inj_on_of_nodup_map hdb.indexes hi hj (sameName_iff.mp hname),
          sameName_left hjtable, hkey]
        rfl

end ProjectHub.Sqlite.Database
