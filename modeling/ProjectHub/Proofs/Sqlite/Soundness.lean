import Mathlib.Data.List.Find
import ProjectHub.Proofs.Sqlite.Rows

/-!
# Sound databases

In every database that commands make from an empty one, no two tables, no two
indexes and no two columns of a table have one name in any case, and every index
is on a table there is.
-/

namespace ProjectHub.Sqlite

theorem sameName_left {a b : String} (h : sameName a b = true) (name : String) :
    sameName a name = sameName b name := by
  simp only [sameName, Text.sameAscii, sameName_iff.mp h]

theorem sameName_right {a b : String} (h : sameName a b = true) (name : String) :
    sameName name a = sameName name b := by
  simp only [sameName, Text.sameAscii, sameName_iff.mp h]

theorem sameName_comm (a b : String) : sameName a b = sameName b a := by
  simp only [sameName, Text.sameAscii, Bool.beq_comm]

@[simp] theorem sameName_self (a : String) : sameName a a = true := by
  simp [sameName, Text.sameAscii]

theorem ne_of_not_sameName {a b : String} (h : sameName a b = false) : a ≠ b := by
  rintro rfl
  rw [sameName_self] at h
  cases h

/-- The names of columns in no case twice. -/
def StoredTable.HasDistinctColumns (t : StoredTable) : Prop :=
  (t.columns.map fun c => Text.lowerAscii c.name).Nodup

namespace Database

/-- What holds of every database that commands make. -/
structure Sound (db : Database) : Prop where
  tables : db.HasDistinctTables
  indexes : (db.indexes.map fun i => Text.lowerAscii i.name).Nodup
  columns : ∀ t ∈ db.tables, t.HasDistinctColumns
  /-- Every index is on a table there is. -/
  owned : ∀ i ∈ db.indexes, (db.table? i.table).isSome = true

/-! ## Look-ups -/

theorem sameName_of_table? {db : Database} {name : String} {t : StoredTable}
    (h : db.table? name = some t) : t ∈ db.tables ∧ sameName t.name name = true :=
  ⟨List.mem_of_find?_eq_some h, by simpa using List.find?_some h⟩

theorem table?_congr {db : Database} {a b : String} (h : sameName a b = true) :
    db.table? a = db.table? b := by
  simp only [table?, sameName_right h]

/-- A table is found under its own name. -/
theorem table?_of_mem {db : Database} (h : db.HasDistinctTables) {t : StoredTable}
    (ht : t ∈ db.tables) : db.table? t.name = some t := by
  cases hfound : db.table? t.name with
  | none =>
      have hnot := List.find?_eq_none.mp hfound t ht
      exact absurd (sameName_self t.name) hnot
  | some u =>
      obtain ⟨hu, hname⟩ := sameName_of_table? hfound
      rw [eq_of_sameName h hu ht hname]

theorem table?_append (db : Database) (t : StoredTable) (name : String) :
    ({ db with tables := db.tables ++ [t] } : Database).table? name =
      (db.table? name).or (if sameName t.name name then some t else none) := by
  simp only [table?, List.find?_append, List.find?_singleton]

theorem table?_setTable (db : Database) (t : StoredTable) (name : String) :
    (db.setTable t).table? name =
      (db.table? name).map fun u => if sameName t.name name then t else u := by
  have hsame (u : StoredTable) :
      sameName (if sameName u.name t.name then t else u).name name = sameName u.name name := by
    split
    · rename_i h
      exact (sameName_left h name).symm
    · rfl
  simp only [table?, setTable, List.find?_map, Function.comp_def, hsame]
  cases hfound : db.tables.find? fun u => sameName u.name name with
  | none => rfl
  | some u =>
      have hu : sameName u.name name = true := by simpa using List.find?_some hfound
      have hboth : sameName u.name t.name = sameName t.name name := by
        rw [sameName_left hu t.name, sameName_comm]
      simp only [Option.map_some, hboth]

theorem table?_filter (db : Database) (indexes : List StoredIndex) (gone name : String) :
    ({ db with
      tables := db.tables.filter fun t => !sameName t.name gone
      indexes := indexes } : Database).table? name =
      if sameName gone name then none else db.table? name := by
  simp only [table?]
  split
  · rename_i h
    refine List.find?_eq_none.mpr fun t ht => ?_
    have hother := (List.mem_filter.mp ht).2
    rw [← sameName_right h]
    simpa using hother
  · rename_i h
    rw [List.find?_filter]
    congr 1
    funext t
    cases hgone : sameName t.name gone with
    | false => simp
    | true =>
        rw [sameName_left hgone name]
        simp [h]

theorem table?_of_sameSchema {a b : Database} (h : a.SameSchema b) (name : String) :
    (a.table? name).map StoredTable.bare = (b.table? name).map StoredTable.bare := by
  have hbare (db : Database) : (db.table? name).map StoredTable.bare =
      (db.tables.map StoredTable.bare).find? fun t => sameName t.name name := by
    rw [List.find?_map]
    rfl
  rw [hbare, hbare, h.tables]

theorem sound_of_sameSchema {a b : Database} (h : a.SameSchema b) (hb : b.Sound) : a.Sound := by
  refine ⟨hasDistinctTables_of_sameSchema h hb.tables, ?_, ?_, ?_⟩
  · rw [h.indexes]
    exact hb.indexes
  · intro t ht
    obtain ⟨u, hu, hbare⟩ := has_of_sameSchema h.symm ⟨t, ht, rfl⟩
    have hcolumns : u.columns = t.columns := by
      show u.bare.columns = t.bare.columns
      rw [hbare]
    show t.HasDistinctColumns
    unfold StoredTable.HasDistinctColumns
    rw [← hcolumns]
    exact hb.columns u hu
  · intro i hi
    rw [h.indexes] at hi
    have hthere := hb.owned i hi
    have hsame := table?_of_sameSchema h i.table
    rw [← Option.isSome_map, hsame, Option.isSome_map]
    exact hthere

theorem sound_empty : empty.Sound :=
  ⟨List.nodup_nil, List.nodup_nil, by simp [empty], by simp [empty]⟩

/-! ## What a command does -/

section

variable {db next : Database} {name table column newName : String}

theorem createTable?_eq {definition : TableDefinition}
    (h : db.createTable? name definition = some next) :
    ∃ t, StoredTable.ofDefinition? name definition = some t ∧ db.isFree name = true ∧
      next = { db with tables := db.tables ++ [t] } := by
  simp only [createTable?, bind, Option.bind_eq_some_iff] at h
  obtain ⟨t, ht, h⟩ := h
  split at h
  · rename_i hfree
    exact ⟨t, ht, hfree, (Option.some.inj h).symm⟩
  · cases h

theorem createIndex?_eq {unique : Bool} {columns : List KeyColumn}
    (h : db.createIndex? name table unique columns = some next) :
    ∃ t parts, db.table? table = some t ∧ columns.mapM (fun k => keyPart? t k.value) = some parts ∧
      db.isFree name = true ∧
      next = { db with indexes := db.indexes ++ [⟨name, table, unique, parts⟩] } := by
  simp only [createIndex?, bind, Option.bind_eq_some_iff] at h
  obtain ⟨t, ht, parts, hparts, h⟩ := h
  split at h
  · rename_i hadmitted
    simp only [Bool.and_eq_true] at hadmitted
    exact ⟨t, parts, ht, hparts, hadmitted.1.1, (Option.some.inj h).symm⟩
  · cases h

theorem dropTable?_eq (hdb : db.HasDistinctTables) (h : db.dropTable? name = some next) :
    ∃ left : Database, left.SameSchema db ∧ next = { left with
      tables := left.tables.filter fun t => !sameName t.name name
      indexes := left.indexes.filter fun i => !sameName i.table name } := by
  simp only [dropTable?, bind, Option.bind_eq_some_iff, pure, Option.some.injEq] at h
  obtain ⟨t, -, left, hleft, rfl⟩ := h
  exact ⟨left, sameSchema_withoutRows? hdb hleft, rfl⟩

theorem dropIndex?_eq (h : db.dropIndex? name = some next) :
    next = { db with indexes := db.indexes.filter fun i => !sameName i.name name } := by
  unfold dropIndex? at h
  split at h
  · exact (Option.some.inj h).symm
  · cases h

/-- A table after one of the tables, itself perhaps, has got another name. -/
def renamed (name newName : String) (t : StoredTable) : StoredTable :=
  { t with
    name := if sameName t.name name then newName else t.name
    foreignKeys := t.foreignKeys.map (renameParent name newName) }

theorem renameTable?_eq (h : db.renameTable? name newName = some next) :
    (db.table? name).isSome = true ∧ db.isFree newName = true ∧ next = { db with
      tables := db.tables.map (renamed name newName)
      indexes := db.indexes.map fun i =>
        if sameName i.table name then { i with table := newName } else i } := by
  simp only [renameTable?, bind, Option.bind_eq_some_iff] at h
  obtain ⟨t, ht, h⟩ := h
  split at h
  · cases h
  · rename_i hfree
    refine ⟨by rw [ht]; rfl, by simpa using hfree, (Option.some.inj h).symm⟩

/-- What a database tells of a column, and its name, do not depend on whether the table takes
values of its types only. -/
theorem inspect_of_strict? {c strict : StoredColumn} (h : c.strict? = some strict) :
    strict.inspect = c.inspect ∧ strict.generated = c.generated := by
  simp only [StoredColumn.strict?, Option.ite_none_left_eq_some] at h
  obtain ⟨-, h⟩ := h
  split at h
  · rw [← Option.some.inj h]
    exact ⟨rfl, rfl⟩
  · rw [← Option.some.inj h]
    exact ⟨rfl, rfl⟩

theorem addColumn?_eq {definition : ColumnDefinition}
    (h : db.addColumn? table definition = some next) :
    ∃ t asked c wider, db.table? table = some t ∧
      StoredColumn.ofDefinition? definition = some asked ∧ c.inspect = asked.inspect ∧
      c.generated = asked.generated ∧ t.hasColumn c.name = false ∧ wider.name = t.name ∧
      wider.columns = t.columns ++ [c] ∧ wider.keys = t.keys ∧
      wider.checks = t.checks ++ (definition.constraints.filterMap fun
        | .check e => some ⟨e, some c.name⟩
        | _ => none) ∧
      wider.foreignKeys = ForeignKey.ofColumns [definition] ++ t.foreignKeys ∧
      next = db.setTable wider := by
  simp only [addColumn?, bind, Option.bind_eq_some_iff] at h
  obtain ⟨t, ht, asked, hasked, h⟩ := h
  cases hstrict : t.isStrict with
  | false =>
      simp only [hstrict, Bool.false_eq_true, if_false, Option.bind_some,
        Option.ite_none_left_eq_some, Bool.or_eq_true, not_or, Bool.not_eq_true] at h
      obtain ⟨⟨⟨⟨⟨⟨⟨⟨hcolumn, -⟩, -⟩, -⟩, -⟩, -⟩, -⟩, -⟩, h⟩ := h
      refine ⟨t, asked, asked, _, ht, hasked, rfl, rfl, hcolumn, ?_, ?_, ?_, ?_, ?_,
        (Option.some.inj h).symm⟩
      all_goals rfl
  | true =>
      simp only [hstrict, if_true, Option.bind_eq_some_iff, Option.ite_none_left_eq_some,
        Bool.or_eq_true, not_or, Bool.not_eq_true] at h
      obtain ⟨c, hc, ⟨⟨⟨⟨⟨⟨⟨hcolumn, -⟩, -⟩, -⟩, -⟩, -⟩, -⟩, -⟩, h⟩ := h
      obtain ⟨hinspect, hgenerated⟩ := inspect_of_strict? hc
      refine ⟨t, asked, c, _, ht, hasked, hinspect, hgenerated, hcolumn, ?_, ?_, ?_, ?_, ?_,
        (Option.some.inj h).symm⟩
      all_goals rfl

theorem dropColumn?_eq (h : db.dropColumn? table column = some next) :
    ∃ t place, db.table? table = some t ∧ t.position? column = some place ∧
      isRead t column = false ∧ (db.indexesOf table).any (fun i => i.mentions column) = false ∧
      next = db.settleNames.setTable (withoutColumn t column place) := by
  simp only [dropColumn?, bind, Option.bind_eq_some_iff, Option.ite_none_left_eq_some,
    Bool.or_eq_true, not_or, Bool.not_eq_true] at h
  obtain ⟨t, ht, place, hplace, ⟨⟨hread, hindexed⟩, -⟩, h⟩ := h
  exact ⟨t, place, ht, hplace, hread, hindexed, (Option.some.inj h).symm⟩

/-! ## Soundness -/

theorem free_of_isFree (h : db.isFree name = true) :
    db.table? name = none ∧ db.index? name = none := by
  simp only [isFree, isTaken, Bool.and_eq_true, Bool.not_eq_true', Bool.or_eq_false_iff,
    Option.isSome_eq_false_iff, Option.isNone_iff_eq_none] at h
  exact h.1

theorem sound_createTable? (hdb : db.Sound) {definition : TableDefinition}
    (h : db.createTable? name definition = some next) : next.Sound := by
  obtain ⟨t, ht, hfree, rfl⟩ := createTable?_eq h
  obtain ⟨hname, hdistinct⟩ := distinct_of_ofDefinition? ht
  have hnone := List.find?_eq_none.mp (free_of_isFree hfree).1
  refine ⟨?_, hdb.indexes, ?_, ?_⟩
  · show (List.map _ (db.tables ++ [t])).Nodup
    rw [List.map_append, List.nodup_append]
    refine ⟨hdb.tables, by simp, ?_⟩
    intro a ha b hb hab
    obtain ⟨u, hu, rfl⟩ := List.mem_map.mp ha
    rw [List.map_singleton, List.mem_singleton] at hb
    exact hnone u hu (sameName_iff.mpr (by rw [hab, hb, hname]))
  · intro u hu
    rcases List.mem_append.mp hu with hu | hu
    · exact hdb.columns u hu
    · rw [List.mem_singleton.mp hu]
      exact hdistinct
  · intro i hi
    rw [table?_append, Option.isSome_or, hdb.owned i hi, Bool.true_or]

theorem sound_createIndex? (hdb : db.Sound) {unique : Bool} {columns : List KeyColumn}
    (h : db.createIndex? name table unique columns = some next) : next.Sound := by
  obtain ⟨t, parts, ht, -, hfree, rfl⟩ := createIndex?_eq h
  have hnone := List.find?_eq_none.mp (free_of_isFree hfree).2
  refine ⟨hdb.tables, ?_, hdb.columns, ?_⟩
  · show (List.map _ (db.indexes ++ [_])).Nodup
    rw [List.map_append, List.nodup_append]
    refine ⟨hdb.indexes, by simp, ?_⟩
    intro a ha b hb hab
    obtain ⟨i, hi, rfl⟩ := List.mem_map.mp ha
    rw [List.map_singleton, List.mem_singleton] at hb
    exact hnone i hi (sameName_iff.mpr (by rw [hab, hb]))
  · intro i hi
    show (db.table? i.table).isSome = true
    rcases List.mem_append.mp hi with hi | hi
    · exact hdb.owned i hi
    · rw [List.mem_singleton.mp hi]
      show (db.table? table).isSome = true
      rw [ht]
      rfl

theorem sound_dropTable? (hdb : db.Sound) (h : db.dropTable? name = some next) : next.Sound := by
  obtain ⟨left, hsame, rfl⟩ := dropTable?_eq hdb.tables h
  have hleft := sound_of_sameSchema hsame hdb
  refine ⟨?_, ?_, ?_, ?_⟩
  · exact hleft.tables.sublist (List.filter_sublist.map _)
  · exact hleft.indexes.sublist (List.filter_sublist.map _)
  · intro t ht
    exact hleft.columns t (List.mem_of_mem_filter ht)
  · intro i hi
    obtain ⟨hi, hother⟩ := List.mem_filter.mp hi
    have hne : sameName name i.table = false := by
      rw [sameName_comm]
      simpa using hother
    rw [table?_filter, hne]
    exact hleft.owned i hi

theorem sound_dropIndex? (hdb : db.Sound) (h : db.dropIndex? name = some next) : next.Sound := by
  rw [dropIndex?_eq h]
  refine ⟨hdb.tables, ?_, hdb.columns, ?_⟩
  · exact hdb.indexes.sublist (List.filter_sublist.map _)
  · intro i hi
    exact hdb.owned i (List.mem_of_mem_filter hi)

theorem sound_setTable (hdb : db.Sound) {t : StoredTable} (ht : t.HasDistinctColumns) :
    (db.setTable t).Sound := by
  refine ⟨?_, hdb.indexes, ?_, ?_⟩
  · have hnames : ((db.setTable t).tables.map fun u => Text.lowerAscii u.name) =
        db.tables.map fun u => Text.lowerAscii u.name := by
      simp only [setTable, List.map_map]
      refine List.map_congr_left fun u _ => ?_
      simp only [Function.comp_apply]
      split
      · rename_i hname
        exact (sameName_iff.mp hname).symm
      · rfl
    unfold HasDistinctTables
    rw [hnames]
    exact hdb.tables
  · intro u hu
    obtain ⟨v, hv, rfl⟩ := List.mem_map.mp hu
    split
    · exact ht
    · exact hdb.columns v hv
  · intro i hi
    rw [table?_setTable, Option.isSome_map]
    exact hdb.owned i hi

theorem sound_addColumn? (hdb : db.Sound) {definition : ColumnDefinition}
    (h : db.addColumn? table definition = some next) : next.Sound := by
  obtain ⟨t, asked, c, wider, ht, -, -, -, hnew, -, hcolumns, -, -, -, rfl⟩ := addColumn?_eq h
  refine sound_setTable hdb ?_
  have hnone := List.find?_eq_none.mp (Option.isSome_eq_false_iff.mp hnew |> Option.isNone_iff_eq_none.mp)
  unfold StoredTable.HasDistinctColumns
  rw [hcolumns, List.map_append, List.nodup_append]
  refine ⟨hdb.columns t (sameName_of_table? ht).1, by simp, ?_⟩
  intro a ha b hb hab
  obtain ⟨d, hd, rfl⟩ := List.mem_map.mp ha
  rw [List.map_singleton, List.mem_singleton] at hb
  exact hnone d hd (sameName_iff.mpr (by rw [hab, hb]))

theorem sound_settleNames (hdb : db.Sound) : db.settleNames.Sound := by
  refine ⟨hdb.tables, ?_, hdb.columns, ?_⟩
  · simp only [settleNames, List.map_map]
    exact hdb.indexes
  · intro i hi
    obtain ⟨j, hj, rfl⟩ := List.mem_map.mp hi
    exact hdb.owned j hj

theorem sound_dropColumn? (hdb : db.Sound) (h : db.dropColumn? table column = some next) :
    next.Sound := by
  obtain ⟨t, place, ht, -, -, -, rfl⟩ := dropColumn?_eq h
  refine sound_setTable (sound_settleNames hdb) ?_
  have hcolumns := hdb.columns t (sameName_of_table? ht).1
  exact hcolumns.sublist ((List.eraseIdx_sublist _ _).map _)

theorem name_renamed (t : StoredTable) :
    (renamed name newName t).name = if sameName t.name name then newName else t.name := rfl

/-- After a table got a name that no table had. -/
theorem table?_renamed (hfree : db.table? newName = none) (indexes : List StoredIndex)
    (key : String) :
    ({ db with
      tables := db.tables.map (renamed name newName)
      indexes := indexes } : Database).table? key =
      if sameName newName key then (db.table? name).map (renamed name newName)
      else if sameName name key then none
      else (db.table? key).map (renamed name newName) := by
  have hnone := List.find?_eq_none.mp hfree
  have hfind {q : StoredTable → Bool}
      (hq : ∀ t ∈ db.tables, sameName (renamed name newName t).name key = q t) :
      ({ db with
        tables := db.tables.map (renamed name newName)
        indexes := indexes } : Database).table? key =
        (db.tables.find? q).map (renamed name newName) := by
    show (db.tables.map (renamed name newName)).find? _ = _
    rw [List.find?_map]
    exact congrArg (Option.map _) (List.find?_congr hq)
  cases hnew : sameName newName key with
  | true =>
      rw [if_pos rfl]
      refine hfind fun t ht => ?_
      rw [name_renamed]
      cases hname : sameName t.name name with
      | true => exact hnew
      | false =>
          rw [if_neg Bool.false_ne_true, ← sameName_right hnew]
          simpa using hnone t ht
  | false =>
      rw [if_neg Bool.false_ne_true]
      cases hold : sameName name key with
      | true =>
          have hnever : db.tables.find? (fun _ => false) = none := by simp
          rw [if_pos rfl, hfind (q := fun _ => false), hnever]
          · rfl
          · intro t ht
            rw [name_renamed]
            cases hname : sameName t.name name with
            | true => exact hnew
            | false => rw [if_neg Bool.false_ne_true, ← sameName_right hold, hname]
      | false =>
          rw [if_neg Bool.false_ne_true]
          refine hfind fun t ht => ?_
          rw [name_renamed]
          cases hname : sameName t.name name with
          | true => rw [if_pos rfl, hnew, sameName_left hname, hold]
          | false => rw [if_neg Bool.false_ne_true]

/-- Tables stay distinct by their names where one of them gets a name that none has. -/
theorem nodup_renamed (hdb : db.HasDistinctTables) (hnone : db.table? newName = none) :
    ((db.tables.map (renamed name newName)).map fun t => Text.lowerAscii t.name).Nodup := by
  have hnot := List.find?_eq_none.mp hnone
  rw [List.map_map]
  refine (List.nodup_map_iff_inj_on (hdb.of_map _)).mpr fun t ht u hu hsame => ?_
  simp only [Function.comp_apply, name_renamed] at hsame
  cases ht' : sameName t.name name with
  | true =>
      cases hu' : sameName u.name name with
      | true =>
          refine eq_of_sameName hdb ht hu ?_
          rw [sameName_left ht', sameName_comm]
          exact hu'
      | false =>
          rw [ht', hu', if_pos rfl, if_neg Bool.false_ne_true] at hsame
          exact absurd (sameName_iff.mpr hsame.symm) (hnot u hu)
  | false =>
      cases hu' : sameName u.name name with
      | true =>
          rw [ht', hu', if_pos rfl, if_neg Bool.false_ne_true] at hsame
          exact absurd (sameName_iff.mpr hsame) (hnot t ht)
      | false =>
          rw [ht', hu', if_neg Bool.false_ne_true, if_neg Bool.false_ne_true] at hsame
          exact eq_of_sameName hdb ht hu (sameName_iff.mpr hsame)

theorem sound_renameTable? (hdb : db.Sound) (h : db.renameTable? name newName = some next) :
    next.Sound := by
  obtain ⟨hthere, hfree, rfl⟩ := renameTable?_eq h
  have hnone := (free_of_isFree hfree).1
  refine ⟨nodup_renamed hdb.tables hnone, ?_, ?_, ?_⟩
  · show ((db.indexes.map _).map _).Nodup
    rw [List.map_map]
    refine (congrArg List.Nodup ?_).mpr hdb.indexes
    refine List.map_congr_left fun i _ => ?_
    simp only [Function.comp_apply]
    split <;> rfl
  · intro t ht
    obtain ⟨u, hu, rfl⟩ := List.mem_map.mp ht
    exact hdb.columns u hu
  · intro i hi
    obtain ⟨j, hj, rfl⟩ := List.mem_map.mp hi
    rw [table?_renamed hnone]
    cases hname : sameName j.table name with
    | true => simp [hthere]
    | false =>
        have hkey : sameName name j.table = false := by rw [sameName_comm, hname]
        have hown := hdb.owned j hj
        cases hnew : sameName newName j.table with
        | true => simp [hnew, hthere]
        | false => simp [hnew, hkey, hown]

theorem sound_execute? (hdb : db.Sound) {command : Command} (h : db.execute? command = some next) :
    next.Sound := by
  unfold execute? at h
  split at h
  · split at h
    · exact Option.some.inj h ▸ hdb
    · exact sound_createTable? hdb h
  · split at h
    · exact Option.some.inj h ▸ hdb
    · exact sound_createIndex? hdb h
  · split at h
    · exact Option.some.inj h ▸ hdb
    · exact sound_dropTable? hdb h
  · split at h
    · exact Option.some.inj h ▸ hdb
    · exact sound_dropIndex? hdb h
  · exact sound_renameTable? hdb h
  · exact sound_addColumn? hdb h
  · exact sound_dropColumn? hdb h
  · exact sound_of_sameSchema (sameSchema_insert? hdb.tables h) hdb
  · exact sound_of_sameSchema (sameSchema_copyRows? hdb.tables h) hdb
  · exact sound_of_sameSchema (sameSchema_clear? hdb.tables h) hdb
  · split at h
    · exact Option.some.inj h ▸ hdb
    · cases h
  · exact Option.some.inj h ▸ hdb

end

/-- The databases that commands make from an empty one. -/
inductive Reachable : Database → Prop
  | empty : Reachable .empty
  | execute {db next : Database} {command : Command} (start : Reachable db)
    (step : db.execute? command = some next) : Reachable next

theorem Reachable.commands {db next : Database} (start : db.Reachable) {commands : List Command}
    (h : commands.foldlM execute? db = some next) : next.Reachable := by
  induction commands generalizing db with
  | nil =>
      cases h
      exact start
  | cons command rest ih =>
      rw [List.foldlM_cons] at h
      obtain ⟨middle, hfirst, h⟩ := Option.bind_eq_some_iff.mp h
      exact ih (start.execute hfirst) h

/-- Every database that commands make is sound. -/
theorem Reachable.sound {db : Database} (h : db.Reachable) : db.Sound := by
  induction h with
  | empty => exact sound_empty
  | execute _ step ih => exact sound_execute? ih step

end Database

end ProjectHub.Sqlite
