import ProjectHub.Proofs.Realm.CarryOut
import ProjectHub.Proofs.Sqlite.Alteration

/-!
# Indexes that nothing is proposed for

A database tells an index by the columns in its key and leaves expressions out. So where
nothing is to be changed, every index on a wanted table is declared with its columns in
their order, and what it has beyond them is expressions.
-/

namespace ProjectHub

theorem Table.indexes_eq_of_diff_eq_nil {before after : Table} (h : before.diff after = []) :
    before.indexes = after.indexes := by
  unfold diff at h
  split at h
  · rename_i same
    rw [same]
  · split at h
    · cases h
    · -- In place nothing is dropped and nothing added, so both have the same bindings.
      simp only [changesInPlace, List.append_eq_nil_iff, List.filterMap_eq_nil_iff,
        ite_eq_left_iff, reduceCtorEq, imp_false, not_not] at h
      obtain ⟨⟨⟨kept, -⟩, -⟩, there⟩ := h
      refine NameMap.ext_get? fun key => Option.ext fun index => ⟨fun found => ?_, fun found => ?_⟩
      · exact kept (key, index) (NameMap.mem_toList_iff.mpr found)
      · exact there (key, index) (NameMap.mem_toList_iff.mpr found)

/-- Where nothing is to be changed, every wanted table is there with its indexes. -/
theorem Realm.exists_of_diff_eq_nil {current desired : Realm} (h : current.diff desired = [])
    {name : String} {T : Table} (hT : desired.tables.get? name = some T) :
    ∃ before, current.tables.get? name = some before ∧ before.indexes = T.indexes := by
  have nothing : current.diffAt desired name = [] := by
    refine List.flatMap_eq_nil_iff.mp h name (NameMap.mem_allKeys_iff.mpr (.inr ?_))
    rw [hT, Option.isSome_some]
  unfold diffAt at nothing
  cases hb : current.tables.get? name with
  | none => simp [hb, hT] at nothing
  | some before =>
      rw [hb, hT] at nothing
      exact ⟨before, rfl, Table.indexes_eq_of_diff_eq_nil nothing⟩

namespace Sqlite

/-- The column that a part of a key is, if it is one. -/
def KeyPart.columnOf? (t : StoredTable) : KeyPart → Option String
  | .column name _ => (t.column? name).map StoredColumn.name
  | .expression _ => none

namespace StoredTable

variable {t : StoredTable} {i : StoredIndex}

theorem inspectIndex_eq (t : StoredTable) (i : StoredIndex) :
    t.inspectIndex i = ⟨i.name, i.parts.filterMap (KeyPart.columnOf? t), i.unique⟩ := by
  unfold inspectIndex
  congr 1

/-- What is told of an index is its whole key only if all parts of it are columns. -/
theorem map_columnOf?_eq_iff :
    i.parts.map (KeyPart.columnOf? t) = (t.inspectIndex i).columns.map some ↔
      ∀ part ∈ i.parts, (part.columnOf? t).isSome = true := by
  rw [inspectIndex_eq]
  generalize i.parts = parts
  induction parts with
  | nil => simp
  | cons part parts ih =>
      cases hpart : part.columnOf? t with
      | none =>
          -- A list that starts with `none` is no list of columns.
          refine iff_of_false (fun heq => ?_) (by simp [hpart])
          have hmem : none ∈ (List.filterMap (KeyPart.columnOf? t) (part :: parts)).map some := by
            rw [← heq]
            exact List.mem_map.mpr ⟨part, List.mem_cons_self, hpart⟩
          simp at hmem
      | some column => simp [hpart, ih]

end StoredTable

namespace Database

variable {db : Database}

/-- The database in which the keys of indexes are columns only: all else in them is left out. -/
def withoutExpressions (db : Database) : Database :=
  { db with indexes := db.indexes.map fun i =>
      { i with parts := i.parts.filter fun part =>
          (db.table? i.table).all fun t => (part.columnOf? t).isSome } }

/-- No realm tells a database from the one without the expressions in its indexes. -/
theorem inspect_withoutExpressions (hdb : db.Sound) : db.withoutExpressions.inspect = db.inspect := by
  have hindexes {t : StoredTable} (ht : t ∈ db.tables) :
      ((db.withoutExpressions.indexesOf t.name).map fun i => (i.name, t.inspectIndex i)) =
        (db.indexesOf t.name).map fun i => (i.name, t.inspectIndex i) := by
    unfold indexesOf withoutExpressions
    rw [List.filter_map, List.map_map]
    refine List.map_congr_left fun i hi => congrArg (i.name, ·) ?_
    have hown : db.table? i.table = some t :=
      (table?_congr (List.mem_filter.mp hi).2).trans (table?_of_mem hdb.tables ht)
    simp only [StoredTable.inspectIndex_eq, hown, Option.all_some, List.filterMap_filter]
    congr 1
    exact List.filterMap_congr fun part _ => by cases part.columnOf? t <;> simp
  refine congrArg (Realm.mk ∘ NameMap.ofList) (List.map_congr_left fun t ht => ?_)
  unfold StoredTable.inspect
  rw [hindexes (List.mem_filter.mp ht).1]

/-- Where nothing is to be changed, the indexes on a wanted table are those declared for it.
Each has the declared columns in their order, and is the declared index exactly if there is no
expression in its key. -/
theorem indexes_of_diff_eq_nil (hdb : db.Reachable) {desired : Realm}
    (h : db.inspect.diff desired = []) {name : String} {T : Table}
    (hT : desired.tables.get? name = some T) :
    ∃ t, db.table? name = some t ∧ t.name = name ∧
      (∀ i ∈ db.indexesOf name, ∃ index, T.indexes.get? i.name = some index ∧
        index.name = i.name ∧ index.unique = i.unique ∧
        index.columns = i.parts.filterMap (KeyPart.columnOf? t) ∧
        (i.parts.map (KeyPart.columnOf? t) = index.columns.map some ↔
          ∀ part ∈ i.parts, (part.columnOf? t).isSome = true)) ∧
      ∀ key index, T.indexes.get? key = some index →
        ∃ i ∈ db.indexesOf name, i.name = key ∧ t.inspectIndex i = index := by
  obtain ⟨before, hbefore, hsame⟩ := Realm.exists_of_diff_eq_nil h hT
  obtain ⟨t, ht, hname, -, rfl⟩ := exists_of_get?_inspect hdb.sound hbefore
  have hdistinct : ((db.indexesOf name).map fun i => Text.lowerAscii i.name).Nodup :=
    hdb.sound.indexes.sublist (List.filter_sublist.map _)
  refine ⟨t, ht, hname, fun i hi => ?_, fun key index hindex => ?_⟩
  · refine ⟨t.inspectIndex i, ?_, rfl, rfl, ?_, StoredTable.map_columnOf?_eq_iff⟩
    · rw [← hsame]
      exact (get?_indexes_inspect hdistinct).mpr ⟨i, hi, rfl, rfl⟩
    · rw [StoredTable.inspectIndex_eq]
  · rw [← hsame] at hindex
    exact (get?_indexes_inspect hdistinct).mp hindex

/-- A table with an index on the lower case of one column and on another column. -/
def lowered : Database where
  tables := [{
    name := "t"
    columns := [
      { name := "a", type := ⟨"TEXT", .text, false⟩, notNull := some .refuse },
      { name := "b", type := ⟨"TEXT", .text, false⟩, notNull := some .refuse }] }]
  indexes := [⟨"i", "t", false, [.expression (.call "lower" [.name "a" true true]), .column "b" none]⟩]

/-- The commands that make the table and the index. -/
def lowering : List Command :=
  [.createTable "t" ⟨[⟨"a", ⟨"TEXT", .text, false⟩, [.notNull .refuse]⟩,
      ⟨"b", ⟨"TEXT", .text, false⟩, [.notNull .refuse]⟩], [], false, false⟩ false,
    .createIndex "i" "t" false [⟨.call "lower" [.name "a" true true], false⟩, .ofName "b"] false]

theorem reachable_lowered : lowered.Reachable :=
  .commands .empty (show lowering.foldlM execute? empty = some lowered from rfl)

/-- The same table with an index on the other column alone. -/
def indexedOn (column : String) : Realm where
  tables := .ofList [("t",
    ⟨"t", [⟨"a", "TEXT", false, none⟩, ⟨"b", "TEXT", false, none⟩], [],
      .ofList [("i", ⟨"i", [column], false⟩)]⟩)]

/-- Nothing is proposed though the index that is there is another one than the declared. -/
theorem indexes_of_diff_eq_nil_lowered :
    lowered.Reachable ∧ lowered.inspect.diff (indexedOn "b") = [] ∧
      ∃ t i, ∃ index : Index, lowered.table? "t" = some t ∧ i ∈ lowered.indexesOf "t" ∧
        index.columns = i.parts.filterMap (KeyPart.columnOf? t) ∧
        i.parts.map (KeyPart.columnOf? t) ≠ index.columns.map some := by
  have hdiff : lowered.inspect.diff (indexedOn "b") = [] := by decide +kernel
  obtain ⟨t, ht, -, hall, -⟩ := indexes_of_diff_eq_nil reachable_lowered hdiff
    (show (indexedOn "b").tables.get? "t" = some _ from rfl)
  have hi : lowered.indexes.head (List.cons_ne_nil _ _) ∈ lowered.indexesOf "t" :=
    List.mem_filter.mpr ⟨List.mem_cons_self, sameName_self "t"⟩
  obtain ⟨index, -, -, -, hcolumns, hiff⟩ := hall _ hi
  refine ⟨reachable_lowered, hdiff, t, _, index, ht, hi, hcolumns, fun heq => ?_⟩
  have hpart := hiff.mp heq _ List.mem_cons_self
  simp [KeyPart.columnOf?] at hpart

end Database

end Sqlite

end ProjectHub
