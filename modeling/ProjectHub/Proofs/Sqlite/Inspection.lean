import ProjectHub.Proofs.Document.Lines
import ProjectHub.Proofs.Realm.Difference
import ProjectHub.Proofs.Sqlite.Soundness

/-!
# What a database tells after a command

The realm that a database shows is given by the look-ups of its tables and
indexes, so a command changes it where it changes what a look-up finds. A name
in an index that is no column could become one later; where there is none such,
columns come and go without a change to the indexes that stay.

Types are told in normal form, as documents give them. So only the words that a
type is declared with decide whether a table is rebuilt for it.
-/

namespace ProjectHub

/-- Realms with the same table under every name. -/
theorem Realm.ext_get? {a b : Realm}
    (h : ∀ name, a.tables.get? name = b.tables.get? name) : a = b :=
  congrArg Realm.mk (NameMap.ext_get? h)

namespace Sqlite

/-- The table that a database tells under a name, if it is shown there. -/
def told (indexes : List StoredIndex) (name : String) (t : StoredTable) : Option Table :=
  if t.name = name ∧ isHidden name = false then some (t.inspect indexes) else none

theorem told_eq_some_iff {indexes : List StoredIndex} {name : String} {t : StoredTable} {T : Table} :
    told indexes name t = some T ↔
      t.name = name ∧ isHidden name = false ∧ t.inspect indexes = T := by
  unfold told
  split
  · rename_i h
    simp [h.1, h.2]
  · rename_i h
    simp only [false_iff, reduceCtorEq]
    exact fun hall => h ⟨hall.1, hall.2.1⟩

namespace Database

/-- Where every name in an index is that of a column of its table, expressions aside. -/
def NamesColumns (db : Database) : Prop :=
  ∀ i ∈ db.indexes, ∀ t, db.table? i.table = some t → ∀ name collation,
    KeyPart.column name collation ∈ i.parts → t.hasColumn name = true

theorem nodup_names {db : Database} (hdb : db.HasDistinctTables) :
    (db.tables.map StoredTable.name).Nodup := by
  refine List.Nodup.of_map Text.lowerAscii ?_
  rw [List.map_map]
  exact hdb

theorem get?_inspect {db : Database} (hdb : db.Sound) (name : String) :
    db.inspect.tables.get? name = (db.table? name).bind (told (db.indexesOf name) name) := by
  have hnodup : (((db.tables.filter fun t => !isHidden t.name).map fun t =>
      (t.name, t.inspect (db.indexesOf t.name))).map Prod.fst).Nodup := by
    rw [List.map_map]
    exact (nodup_names hdb.tables).sublist (List.filter_sublist.map _)
  apply Option.ext
  intro T
  show (NameMap.ofList _).get? name = some T ↔ _
  rw [NameMap.get?_ofList_of_nodup hnodup, List.mem_map, Option.bind_eq_some_iff]
  constructor
  · rintro ⟨t, ht, heq⟩
    obtain ⟨ht, hshown⟩ := List.mem_filter.mp ht
    cases heq
    exact ⟨t, table?_of_mem hdb.tables ht, told_eq_some_iff.mpr ⟨rfl, by simpa using hshown, rfl⟩⟩
  · rintro ⟨t, ht, htold⟩
    obtain ⟨rfl, hshown, rfl⟩ := told_eq_some_iff.mp htold
    exact ⟨t, List.mem_filter.mpr ⟨(sameName_of_table? ht).1, by simp [hshown]⟩, rfl⟩

/-- A table that is shown. -/
theorem exists_of_get?_inspect {db : Database} (hdb : db.Sound) {name : String} {T : Table}
    (h : db.inspect.tables.get? name = some T) :
    ∃ t, db.table? name = some t ∧ t.name = name ∧ isHidden name = false ∧
      t.inspect (db.indexesOf name) = T := by
  rw [get?_inspect hdb] at h
  obtain ⟨t, ht, htold⟩ := Option.bind_eq_some_iff.mp h
  exact ⟨t, ht, told_eq_some_iff.mp htold⟩

theorem inspect_of_sameSchema {a b : Database} (h : a.SameSchema b) : a.inspect = b.inspect := by
  have hbare (db : Database) : db.inspect =
      ⟨.ofList (((db.tables.map StoredTable.bare).filter fun t => !isHidden t.name).map fun t =>
        (t.name, t.inspect (db.indexesOf t.name)))⟩ := by
    rw [List.filter_map, List.map_map]
    rfl
  have hindexes : a.indexesOf = b.indexesOf := by
    funext table
    simp only [indexesOf, h.indexes]
  rw [hbare, hbare, h.tables, hindexes]

theorem namesColumns_of_sameSchema {a b : Database} (h : a.SameSchema b) (hb : b.NamesColumns) :
    a.NamesColumns := by
  intro i hi t ht name collation hpart
  rw [h.indexes] at hi
  have hsame := table?_of_sameSchema h i.table
  rw [ht] at hsame
  obtain ⟨u, hu, hbare⟩ := Option.map_eq_some_iff.mp hsame.symm
  have hcolumns : u.hasColumn name = t.hasColumn name := by
    show u.bare.hasColumn name = t.bare.hasColumn name
    rw [hbare]
  rw [← hcolumns]
  exact hb i hi u hu name collation hpart

/-! ## Tables -/

section

variable {db next : Database} {name table column newName : String} {T : Table}

theorem told_of_ne {indexes : List StoredIndex} {t : StoredTable} (h : t.name ≠ name) :
    told indexes name t = none := by
  unfold told
  rw [if_neg fun hboth => h hboth.1]

/-- The table of a name is told under this name alone, not under the same in another case. -/
theorem bind_told_of_ne {indexes : List StoredIndex} {t : StoredTable} {key : String}
    (ht : db.table? name = some t) (hown : t.name = name) (hsame : sameName name key = true)
    (hkey : name ≠ key) : (db.table? key).bind (told indexes key) = none := by
  rw [← table?_congr hsame, ht, Option.bind_some, told_of_ne (hown ▸ hkey)]

/-- A table with other columns, in the place of one that is shown. -/
theorem inspect_setTable (hdb : db.Sound) {t wider : StoredTable} (ht : db.table? table = some t)
    (hown : t.name = table) (hshown : isHidden table = false) (hname : wider.name = table)
    (hcolumns : wider.HasDistinctColumns) :
    (db.setTable wider).inspect =
      ⟨db.inspect.tables.insert table (wider.inspect (db.indexesOf table))⟩ := by
  refine Realm.ext_get? fun key => ?_
  rw [get?_inspect (sound_setTable hdb hcolumns), NameMap.get?_insert, get?_inspect hdb,
    table?_setTable]
  show (Option.map _ _).bind (told (db.indexesOf key) key) = _
  by_cases hkey : table = key
  · subst hkey
    simp [ht, hname, told, hshown]
  · rw [if_neg hkey]
    cases hu : db.table? key with
    | none => rfl
    | some u =>
        rw [Option.map_some, Option.bind_some, Option.bind_some]
        cases hsame : sameName wider.name key with
        | false => rfl
        | true =>
            rw [if_pos rfl]
            have hu' : u = t := by
              rw [hname] at hsame
              rw [← table?_congr hsame, ht] at hu
              exact (Option.some.inj hu).symm
            rw [told_of_ne (hname ▸ hkey), told_of_ne (hu' ▸ hown ▸ hkey)]

/-- There are no indexes on a table that is not there. -/
theorem indexesOf_of_none (hdb : db.Sound) (h : db.table? name = none) : db.indexesOf name = [] := by
  refine List.filter_eq_nil_iff.mpr fun i hi hsame => ?_
  have hthere := hdb.owned i hi
  rw [table?_congr hsame, h] at hthere
  cases hthere

/-- A table that was declared with plain columns is shown with the columns and the key that are read
back. -/
theorem inspect_of_isOf {t : StoredTable} {shape : Table} (hof : t.IsOf name shape)
    (indexes : List StoredIndex) : t.inspect indexes = { shape.readBack with
      name := name
      indexes := .ofList (indexes.map fun i => (i.name, t.inspectIndex i)) } := by
  have hgenerated : (t.columns.filter fun c => c.generated.isNone) = t.columns := by
    refine List.filter_eq_self.mpr fun c hc => ?_
    rw [(hof.plain c hc).2]
    rfl
  simp only [StoredTable.inspect, StoredTable.inspectKey, hgenerated, hof.name, hof.columns, hof.key,
    Table.readBack]

/-- A new table is shown with the columns and the key that are read back, unless its name hides
it. -/
theorem inspect_createTable? (hdb : db.Sound) {shape : Table} {definition : TableDefinition}
    (hwell : shape.WellFormed) (hnormal : ∀ column ∈ shape.columns, column.IsNormal)
    (hplain : TableDefinition.ofTable? shape = some definition)
    (h : db.createTable? name definition = some next) :
    db.table? name = none ∧ next.inspect =
      if isHidden name then db.inspect
      else ⟨db.inspect.tables.insert name
        { shape.readBack with name := name, indexes := .empty }⟩ := by
  have hnext := sound_createTable? hdb h
  obtain ⟨t, ht, hfree, rfl⟩ := createTable?_eq h
  have hof := isOf_of_ofTable? hwell hnormal hplain ht
  have hnone := (free_of_isFree hfree).1
  have hinspect : t.inspect [] = { shape.readBack with name := name, indexes := .empty } :=
    inspect_of_isOf hof []
  refine ⟨hnone, ?_⟩
  have hget (key : String) : ({ db with tables := db.tables ++ [t] } : Database).inspect.tables.get?
      key = if name = key then told [] key t else db.inspect.tables.get? key := by
    rw [get?_inspect hnext, get?_inspect hdb, table?_append]
    show Option.bind _ (told (db.indexesOf key) key) = _
    by_cases hkey : name = key
    · subst hkey
      simp [hnone, hof.name, indexesOf_of_none hdb hnone]
    · have hne : t.name ≠ key := hof.name ▸ hkey
      rw [if_neg hkey]
      cases hu : db.table? key with
      | some u => rfl
      | none =>
          cases hsame : sameName t.name key with
          | true => simp [told_of_ne hne]
          | false => simp
  cases hhidden : isHidden name with
  | true =>
      refine Realm.ext_get? fun key => (hget key).trans ?_
      rw [if_pos rfl]
      by_cases hkey : name = key
      · subst hkey
        rw [if_pos rfl, get?_inspect hdb, hnone]
        simp [told, hhidden]
      · rw [if_neg hkey]
  | false =>
      refine Realm.ext_get? fun key => (hget key).trans ?_
      rw [if_neg Bool.false_ne_true, NameMap.get?_insert]
      by_cases hkey : name = key
      · subst hkey
        rw [if_pos rfl, if_pos rfl, told_eq_some_iff.mpr ⟨hof.name, hhidden, hinspect⟩]
      · rw [if_neg hkey, if_neg hkey]

theorem inspect_dropTable? (hdb : db.Sound) (hshown : db.inspect.tables.get? name = some T)
    (h : db.dropTable? name = some next) : next.inspect = ⟨db.inspect.tables.erase name⟩ := by
  have hnext := sound_dropTable? hdb h
  obtain ⟨left, hsame, rfl⟩ := dropTable?_eq hdb.tables h
  have hleft := sound_of_sameSchema hsame hdb
  rw [← inspect_of_sameSchema hsame] at hshown ⊢
  obtain ⟨t, ht, hname, -, -⟩ := exists_of_get?_inspect hleft hshown
  refine Realm.ext_get? fun key => ?_
  rw [get?_inspect hnext, NameMap.get?_erase, get?_inspect hleft, table?_filter]
  by_cases hkey : name = key
  · subst hkey
    simp
  · rw [if_neg hkey]
    cases hother : sameName name key with
    | true =>
        rw [if_pos rfl, bind_told_of_ne ht hname hother hkey]
        rfl
    | false =>
        rw [if_neg Bool.false_ne_true]
        congr 2
        simp only [indexesOf, List.filter_filter]
        refine List.filter_congr fun i _ => ?_
        cases hi : sameName i.table key with
        | false => rfl
        | true =>
            rw [sameName_left hi name, sameName_comm, hother]
            rfl

/-- The indexes on a table that got a name no table had are those it had. -/
theorem indexesOf_renamed (hfree : db.indexesOf newName = []) :
    (db.indexes.map fun i => if sameName i.table name then { i with table := newName } else i).filter
        (fun i => sameName i.table newName) =
      (db.indexesOf name).map fun i => { i with table := newName } := by
  have hnone := List.filter_eq_nil_iff.mp hfree
  unfold indexesOf
  generalize db.indexes = indexes at hnone ⊢
  induction indexes with
  | nil => rfl
  | cons i rest ih =>
      have hrest := ih fun j hj => hnone j (List.mem_cons_of_mem _ hj)
      have hfirst := hnone i List.mem_cons_self
      cases hi : sameName i.table name with
      | true => simp [hi, hrest]
      | false => simp [hi, hrest, hfirst]

theorem indexesOf_renamed_of_not {key : String} (hnew : sameName newName key = false)
    (hold : sameName name key = false) :
    (db.indexes.map fun i => if sameName i.table name then { i with table := newName } else i).filter
        (fun i => sameName i.table key) = db.indexesOf key := by
  unfold indexesOf
  induction db.indexes with
  | nil => rfl
  | cons i rest ih =>
      cases hi : sameName i.table name with
      | true =>
          have hother : sameName i.table key = false := by rw [sameName_left hi, hold]
          simp [hi, hnew, hother, ih]
      | false => simp [hi, List.filter_cons, ih]

/-- A table that is renamed is told as before under its new name, with the indexes it had. -/
theorem inspect_renamed {t : StoredTable} (hown : t.name = name)
    (hfree : db.indexesOf newName = []) :
    (renamed name newName t).inspect ((db.indexes.map fun i =>
        if sameName i.table name then { i with table := newName } else i).filter
          fun i => sameName i.table newName) =
      { t.inspect (db.indexesOf name) with name := newName } := by
  have hname : (renamed name newName t).name = newName := by
    rw [name_renamed, hown, sameName_self, if_pos rfl]
  rw [indexesOf_renamed hfree]
  simp only [StoredTable.inspect, hname, List.map_map]
  rfl

/-- Another table is told the same after the renaming of one. -/
theorem told_renamed_of_not {u : StoredTable} {key : String} (hu : db.table? key = some u)
    (hnew : sameName newName key = false) (hold : sameName name key = false) :
    told ((db.indexes.map fun i => if sameName i.table name then { i with table := newName } else i).filter
        fun i => sameName i.table key) key (renamed name newName u) =
      told (db.indexesOf key) key u := by
  have hother : sameName u.name name = false := by
    rw [sameName_left (sameName_of_table? hu).2, sameName_comm, hold]
  have hsame : (renamed name newName u).name = u.name := by
    rw [name_renamed, hother, if_neg Bool.false_ne_true]
  rw [indexesOf_renamed_of_not hnew hold]
  simp only [told, StoredTable.inspect, hsame]
  rfl

theorem inspect_renameTable? (hdb : db.Sound) (hT : db.inspect.tables.get? name = some T)
    (hshown : isHidden newName = false) (h : db.renameTable? name newName = some next) :
    next.inspect = ⟨(db.inspect.tables.erase name).insert newName { T with name := newName }⟩ := by
  have hnext := sound_renameTable? hdb h
  obtain ⟨-, hfree, rfl⟩ := renameTable?_eq h
  obtain ⟨t, ht, hname, -, rfl⟩ := exists_of_get?_inspect hdb hT
  have hnone := (free_of_isFree hfree).1
  have hown : (renamed name newName t).name = newName := by
    rw [name_renamed, hname, sameName_self, if_pos rfl]
  refine Realm.ext_get? fun key => ?_
  rw [get?_inspect hnext, NameMap.get?_insert, NameMap.get?_erase, get?_inspect hdb,
    table?_renamed hnone]
  cases hnew : sameName newName key with
  | true =>
      rw [if_pos rfl, ht, Option.map_some, Option.bind_some]
      by_cases hkey : newName = key
      · subst hkey
        rw [if_pos rfl]
        exact told_eq_some_iff.mpr
          ⟨hown, hshown, inspect_renamed hname (indexesOf_of_none hdb hnone)⟩
      · rw [if_neg hkey, told_of_ne (hown.symm ▸ hkey), ← table?_congr hnew, hnone]
        split <;> rfl
  | false =>
      rw [if_neg (ne_of_not_sameName hnew), if_neg Bool.false_ne_true]
      cases hold : sameName name key with
      | true =>
          rw [if_pos rfl]
          by_cases hkey : name = key
          · rw [if_pos hkey]
            rfl
          · rw [if_neg hkey, bind_told_of_ne ht hname hold hkey]
            rfl
      | false =>
          rw [if_neg (ne_of_not_sameName hold), if_neg Bool.false_ne_true]
          cases hu : db.table? key with
          | none => rfl
          | some u =>
              rw [Option.map_some, Option.bind_some, Option.bind_some]
              exact told_renamed_of_not hu hnew hold

/-! ## Names in indexes -/

theorem namesColumns_createTable? (hdb : db.Sound) (hnames : db.NamesColumns)
    {definition : TableDefinition} (h : db.createTable? name definition = some next) :
    next.NamesColumns := by
  obtain ⟨t, -, -, rfl⟩ := createTable?_eq h
  intro i hi u hu word collation hpart
  obtain ⟨v, hv⟩ := Option.isSome_iff_exists.mp (hdb.owned i hi)
  rw [table?_append, hv, Option.some_or] at hu
  cases hu
  exact hnames i hi u hv word collation hpart

theorem namesColumns_dropTable? (hdb : db.Sound) (hnames : db.NamesColumns)
    (h : db.dropTable? name = some next) : next.NamesColumns := by
  obtain ⟨left, hsame, rfl⟩ := dropTable?_eq hdb.tables h
  intro i hi u hu word collation hpart
  rw [table?_filter] at hu
  split at hu
  · cases hu
  · exact namesColumns_of_sameSchema hsame hnames i (List.mem_of_mem_filter hi) u hu word collation
      hpart

theorem namesColumns_dropIndex? (hnames : db.NamesColumns) (h : db.dropIndex? name = some next) :
    next.NamesColumns := by
  rw [dropIndex?_eq h]
  intro i hi
  exact hnames i (List.mem_of_mem_filter hi)

theorem namesColumns_renameTable? (hdb : db.Sound) (hnames : db.NamesColumns)
    (h : db.renameTable? name newName = some next) : next.NamesColumns := by
  obtain ⟨hthere, hfree, rfl⟩ := renameTable?_eq h
  have hnone := (free_of_isFree hfree).1
  intro i hi u hu word collation hpart
  obtain ⟨j, hj, rfl⟩ := List.mem_map.mp hi
  obtain ⟨v, hv⟩ := Option.isSome_iff_exists.mp (hdb.owned j hj)
  have hcolumn {w : StoredTable} (hw : db.table? j.table = some w)
      (hpart : KeyPart.column word collation ∈ j.parts) :
      (renamed name newName w).hasColumn word = true :=
    hnames j hj w hw word collation hpart
  rw [table?_renamed hnone] at hu
  cases hname : sameName j.table name with
  | true =>
      simp only [hname, if_true, sameName_self] at hu hpart
      rw [← table?_congr hname, hv] at hu
      cases hu
      exact hcolumn hv hpart
  | false =>
      simp only [hname, Bool.false_eq_true, if_false] at hu hpart
      have hnew : sameName newName j.table = false := by
        by_contra hsame
        rw [← table?_congr (by simpa using hsame), hnone] at hv
        cases hv
      have hold : sameName name j.table = false := by rw [sameName_comm, hname]
      rw [hnew, hold, hv] at hu
      cases hu
      exact hcolumn hv hpart

/-- The part of an index that a quoted name is. -/
theorem keyPart?_ofName (t : StoredTable) (name : String) :
    keyPart? t (KeyColumn.ofName name).value = some (.column name none) := by
  cases hcolumn : t.hasColumn name with
  | true => simp [keyPart?, KeyColumn.ofName, KeyRequest.column?, hcolumn]
  | false => simp [keyPart?, KeyColumn.ofName, KeyRequest.column?, hcolumn]

/-- An index on columns as the database stores it. -/
def storedIndex (table : String) (index : Index) : StoredIndex :=
  ⟨index.name, table, index.unique, index.columns.map fun column => .column column none⟩

theorem createIndex?_ofNames {index : Index}
    (h : db.createIndex? index.name table index.unique (index.columns.map KeyColumn.ofName) =
      some next) :
    (∃ t, db.table? table = some t) ∧
      next = { db with indexes := db.indexes ++ [storedIndex table index] } := by
  obtain ⟨t, parts, ht, hparts, -, rfl⟩ := createIndex?_eq h
  have hall : index.columns.mapM ((fun k => keyPart? t k.value) ∘ KeyColumn.ofName) =
      some (index.columns.map fun column => .column column none) :=
    mapM_eq_map fun column _ => keyPart?_ofName t column
  rw [List.mapM_map, hall] at hparts
  cases hparts
  exact ⟨⟨t, ht⟩, rfl⟩

theorem namesColumns_createIndex? (hnames : db.NamesColumns) {index : Index}
    (hcolumns : ∀ t, db.table? table = some t → ∀ column ∈ index.columns,
      t.hasColumn column = true)
    (h : db.createIndex? index.name table index.unique (index.columns.map KeyColumn.ofName) =
      some next) : next.NamesColumns := by
  obtain ⟨-, rfl⟩ := createIndex?_ofNames h
  intro i hi u hu word collation hpart
  rcases List.mem_append.mp hi with hi | hi
  · exact hnames i hi u hu word collation hpart
  · rw [List.mem_singleton.mp hi] at hu hpart
    obtain ⟨column, hcolumn, heq⟩ := List.mem_map.mp hpart
    cases heq
    exact hcolumns u hu word hcolumn

end

/-! ## Types as they are declared and as they are told -/

section Types

variable {db : Database} {t : StoredTable}

/-- Columns of a sound database have different names. -/
theorem nodup_columns (hdb : db.Sound) (ht : t ∈ db.tables) :
    (t.columns.map StoredColumn.name).Nodup := by
  refine List.Nodup.of_map Text.lowerAscii ?_
  rw [List.map_map]
  exact hdb.columns t ht

/-- The type that a column of a name is declared with. -/
def declaredType (t : StoredTable) (name : String) : String :=
  ((t.column? name).map fun c => c.type.text).getD ""

theorem declaredType_of_mem (hdb : db.Sound) (ht : t ∈ db.tables) {c : StoredColumn}
    (hc : c ∈ t.columns) : declaredType t c.name = c.type.text := by
  rw [declaredType, StoredTable.column?, find?_of_name (hdb.columns t ht) hc]
  rfl

/-- A table is told with its declared types. -/
theorem spelled_declaredType (hdb : db.Sound) (ht : t ∈ db.tables) (indexes : List StoredIndex) :
    (t.inspect indexes).spelled (declaredType t) = t.inspect indexes := by
  refine Table.spelled_eq_self fun c hc => ?_
  obtain ⟨stored, hstored, rfl⟩ := List.mem_map.mp hc
  rw [StoredColumn.inspect, declaredType_of_mem hdb ht (List.mem_of_mem_filter hstored)]

theorem hasColumn_inspect_iff {indexes : List StoredIndex} {name : String} :
    (t.inspect indexes).hasColumn name = true ↔
      ∃ c ∈ t.columns, c.generated = none ∧ c.name = name := by
  rw [Table.hasColumn_iff, StoredTable.inspect]
  simp only [List.mem_map, List.mem_filter, Option.isNone_iff_eq_none]
  constructor
  · rintro ⟨_, ⟨c, ⟨hc, hstored⟩, rfl⟩, rfl⟩
    exact ⟨c, hc, hstored, rfl⟩
  · rintro ⟨c, hc, hstored, rfl⟩
    exact ⟨_, ⟨c, ⟨hc, hstored⟩, rfl⟩, rfl⟩

theorem get?_inspect_of_mem (hdb : db.Sound) (ht : t ∈ db.tables)
    (hshown : isHidden t.name = false) :
    db.inspect.tables.get? t.name = some (t.inspect (db.indexesOf t.name)) := by
  rw [get?_inspect hdb, table?_of_mem hdb.tables ht]
  exact told_eq_some_iff.mpr ⟨rfl, hshown, rfl⟩

/-- A table of a database is rebuilt to what a document describes if a column that both have is
declared with other words, and else where it would be if it had the types of the document. -/
theorem rebuilds_of_parse_iff {document : String} {desired : Realm} {after : Table}
    (hdb : db.Sound) (ht : t ∈ db.tables) (hshown : isHidden t.name = false)
    (hparse : Realm.parse document = .ok desired)
    (hafter : desired.tables.get? t.name = some after) :
    let before := t.inspect (db.indexesOf t.name)
    db.inspect.diffAt desired t.name = before.diff after ∧
      (before.Rebuilds after ↔
        (∃ c ∈ t.columns, c.generated = none ∧ ∃ d ∈ after.columns, d.name = c.name ∧
          ¬SameWords c.type.text d.sqlType) ∨ (before.spelled after.typeOf).Rebuilds after) := by
  intro before
  obtain ⟨hwell, hnormal⟩ := Realm.wellFormed_parse hparse
  have hdistinct : (after.columns.map Column.name).Nodup := (hwell.tables hafter).distinct
  have hbefore : before.spelled (declaredType t) = before := spelled_declaredType hdb ht _
  have hsame : after.spelled after.typeOf = after :=
    Table.spelled_typeOf hdistinct (hnormal hafter)
  have hrebuild := Table.rebuilds_spelled_iff before after (declaredType t) after.typeOf
  rw [hbefore, hsame] at hrebuild
  refine ⟨by rw [Realm.diffAt, get?_inspect_of_mem hdb ht hshown, hafter], ?_⟩
  rw [hrebuild]
  refine or_congr_left ⟨?_, ?_⟩
  · rintro ⟨name, hb, ha, hnot⟩
    obtain ⟨c, hc, hstored, rfl⟩ := hasColumn_inspect_iff.mp hb
    obtain ⟨d, hd, hname⟩ := Table.hasColumn_iff.mp ha
    rw [declaredType_of_mem hdb ht hc, ← hname, Table.typeOf_of_mem hdistinct hd] at hnot
    exact ⟨c, hc, hstored, d, hd, hname, hnot⟩
  · rintro ⟨c, hc, hstored, d, hd, hname, hnot⟩
    refine ⟨c.name, hasColumn_inspect_iff.mpr ⟨c, hc, hstored, rfl⟩,
      Table.hasColumn_iff.mpr ⟨d, hd, hname⟩, ?_⟩
    rw [declaredType_of_mem hdb ht hc, ← hname, Table.typeOf_of_mem hdistinct hd]
    exact hnot

end Types

end Database

open Document in
/-- The normal forms of types are the spaced texts without a small letter of ASCII, each its own,
and types have one normal form exactly if they have the same words but for the case of ASCII
letters, where words are what the blanks of a text part it into. Documents and databases give types
in normal form. So a difference in types has a table rebuilt exactly if a column that both sides
have is spelled with other words. -/
theorem types_are_compared_by_words :
    (∀ raw, normalizeType (normalizeType raw) = normalizeType raw) ∧
    (∀ s, (∃ raw, normalizeType raw = s) ↔
      Text.IsSpaced s.toList ∧ ∀ c ∈ s.toList, c.isLower = false) ∧
    (∀ cs ws, Text.words cs = ws ↔ Text.PartsInto cs ws) ∧
    (∀ a b, normalizeType a = normalizeType b ↔ SameWords a b) ∧
    (∀ (before after : Table) (f g : String → String),
      (before.spelled f).Rebuilds (after.spelled g) ↔
        (∃ name, before.hasColumn name = true ∧ after.hasColumn name = true ∧
          ¬SameWords (f name) (g name)) ∨ (before.spelled g).Rebuilds (after.spelled g)) ∧
    (∀ (block : Block) (column : Column), Column.ofBlock block = .ok column →
      ∃ a raw, (attributesOf "type" block.attributes).getLast? = some a ∧
        a.value.typeText? = some raw ∧ normalizeType raw = column.sqlType) ∧
    ∀ (db : Database) (t : StoredTable) (document : String) (desired : Realm) (after : Table),
      db.Reachable → t ∈ db.tables → isHidden t.name = false →
      Realm.parse document = .ok desired → desired.tables.get? t.name = some after →
        let before := t.inspect (db.indexesOf t.name)
        db.inspect.diffAt desired t.name = before.diff after ∧
          (before.Rebuilds after ↔
            (∃ c ∈ t.columns, c.generated = none ∧ ∃ d ∈ after.columns, d.name = c.name ∧
              ¬SameWords c.type.text d.sqlType) ∨
            (before.spelled after.typeOf).Rebuilds after) := by
  refine ⟨normalizeType_normalizeType, fun s => ?_, fun cs ws => Text.words_eq_iff,
    fun a b => normalizeType_eq_iff, Table.rebuilds_spelled_iff, fun block column hcolumn => ?_,
    fun db t document desired after hdb ht => Database.rebuilds_of_parse_iff hdb.sound ht⟩
  · rw [← normalizeType_eq_self_iff]
    constructor
    · rintro ⟨raw, rfl⟩
      exact normalizeType_normalizeType raw
    · exact fun h => ⟨s, h⟩
  · obtain ⟨a, hlast, htype⟩ := Column.type_ofBlock hcolumn
    obtain ⟨raw, hwritten, hnormal⟩ := typeOfValue_eq_ok_iff.mp htype
    exact ⟨a, raw, hlast, hwritten, hnormal⟩

/-- A table with a column whose type is two words. -/
def spacedTable : StoredTable where
  name := "t"
  columns := [{ name := "a", type := ⟨"varchar (10)", .text, false⟩ }]

/-- A database of this table. -/
def spaced : Database where
  tables := [spacedTable]
  indexes := []

/-- The block of a column with the type in one word. -/
def unspacedBlock : Document.Block :=
  ⟨"column", ["a"], [⟨"type", .call "varchar" [.number "10"], 0⟩, ⟨"null", .bool true, 0⟩], [], 0⟩

/-- A document of the table with this column. -/
def unspacedDocument : String :=
  "table \"t\" \x7b\n" ++
    "  column \"a\" \x7b type = varchar(10) null = true \x7d\n" ++
  "\x7d\n"

/-- The realm of this document. -/
def unspaced : Realm where
  tables := .ofList [("t", ⟨"t", [⟨"a", "VARCHAR(10)", true, none⟩], [], .empty⟩)]

theorem parse_unspacedDocument : Realm.parse unspacedDocument = .ok unspaced := by
  refine Realm.parse_of_tokens [] [⟨"table", ["t"], [], [unspacedBlock], 0⟩] ?_ rfl ?_ ?_
  · unfold Document.tokens unspacedDocument
    simp only [String.toList_append, -String.reduceAppend, -String.reduceToList]
    decide +kernel
  · decide +kernel
  · decide +kernel

theorem types_are_compared_by_words_spaced :
    spaced.Reachable ∧ Realm.parse unspacedDocument = .ok unspaced ∧
      (∃ raw, (Document.Value.call "varchar" [.number "10"]).typeText? = some raw ∧
        normalizeType raw = "VARCHAR(10)") ∧
      ¬SameWords "varchar (10)" "VARCHAR(10)" ∧
      spaced.inspect.diffAt unspaced "t" =
        [.rebuildTable ⟨"t", [⟨"a", "VARCHAR (10)", true, none⟩], [], .empty⟩
          ⟨"t", [⟨"a", "VARCHAR(10)", true, none⟩], [], .empty⟩ ["a"]] := by
  have hreachable : spaced.Reachable :=
    .execute .empty (show Database.execute? .empty (.createTable "t"
      ⟨[⟨"a", ⟨"varchar (10)", .text, false⟩, []⟩], [], false, false⟩ false) = some _ from rfl)
  have hwords : ¬SameWords "varchar (10)" "VARCHAR(10)" := by
    rw [← normalizeType_eq_iff]
    decide +kernel
  have hblock : Column.ofBlock unspacedBlock = .ok ⟨"a", "VARCHAR(10)", true, none⟩ := by
    decide +kernel
  obtain ⟨a, raw, hlast, hraw, hnormal⟩ :=
    types_are_compared_by_words.2.2.2.2.2.1 unspacedBlock _ hblock
  cases hlast
  obtain ⟨hdiff, hrebuilds⟩ := types_are_compared_by_words.2.2.2.2.2.2 spaced spacedTable
    unspacedDocument unspaced ⟨"t", [⟨"a", "VARCHAR(10)", true, none⟩], [], .empty⟩ hreachable
    List.mem_cons_self (by decide) parse_unspacedDocument rfl
  refine ⟨hreachable, parse_unspacedDocument, ⟨raw, hraw, hnormal⟩, hwords,
    hdiff.trans ((hrebuilds.mpr (.inl ?_)).trans ?_)⟩
  · exact ⟨_, List.mem_cons_self, rfl, _, List.mem_cons_self, rfl, hwords⟩
  · decide +kernel

end Sqlite

end ProjectHub
