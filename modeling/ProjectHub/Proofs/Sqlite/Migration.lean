import ProjectHub.Proofs.Realm.CarryOut
import ProjectHub.Proofs.Sqlite.Alteration

/-!
# Carrying out changes in a database

The statements of a change do to the realm that a database shows what the change
means, but for what is not read back as it was declared. So the statements of a
difference lead to the realm that was wanted just if all its changes are read
back.
-/

namespace ProjectHub

namespace Sqlite.Database

/-- What holds of a database all along: it is sound, and the names in its indexes are columns. -/
structure Regular (db : Database) : Prop where
  sound : db.Sound
  names : db.NamesColumns

/-- The database after a statement, if that is plain and carried out. -/
def after? (db : Database) (statement : Sql.Statement) : Option Database :=
  (Command.plain? statement).bind db.execute?

/-- Plain statements are carried out one after the other. -/
theorem foldlM_after? {db next : Database} {statements : List Sql.Statement}
    (hplain : ∀ statement ∈ statements, (Command.plain? statement).isSome = true)
    (h : db.run? statements = some next) : statements.foldlM after? db = some next := by
  simp only [run?, transact?, bind, Option.bind_eq_some_iff, Option.ite_none_right_eq_some,
    Option.some.injEq] at h
  obtain ⟨commands, hcommands, reached, hreached, -, rfl⟩ := h
  induction statements generalizing db commands with
  | nil =>
      cases hcommands
      exact hreached
  | cons statement statements ih =>
      simp only [List.mapM_cons, bind, Option.bind_eq_some_iff, pure, Option.some.injEq] at hcommands
      obtain ⟨first, hfirst, others, hothers, rfl⟩ := hcommands
      obtain ⟨command, hcommand⟩ :=
        Option.isSome_iff_exists.mp (hplain statement List.mem_cons_self)
      have hone : first = [command] := by
        unfold Command.ofStatement? at hfirst
        split at hfirst
        · cases hfirst
        · rw [hcommand] at hfirst
          exact (Option.some.inj hfirst).symm
      rw [hone, List.flatten_cons, List.singleton_append, List.foldlM_cons] at hreached
      obtain ⟨middle, hstep, hrest⟩ := Option.bind_eq_some_iff.mp hreached
      rw [List.foldlM_cons]
      refine Option.bind_eq_some_iff.mpr ⟨middle, ?_, ?_⟩
      · unfold after?
        rw [hcommand]
        exact hstep
      · exact ih (fun other hother => hplain other (List.mem_cons_of_mem _ hother)) others hothers hrest

section

variable {db next : Database} {name : String} {T : Table}

theorem regular_empty : empty.Regular :=
  ⟨sound_empty, by simp [NamesColumns, empty]⟩

theorem foldlM_after?_cons_iff {statement : Sql.Statement} {rest : List Sql.Statement} :
    (statement :: rest).foldlM after? db = some next ↔
      ∃ command middle, Command.plain? statement = some command ∧
        db.execute? command = some middle ∧ rest.foldlM after? middle = some next := by
  rw [List.foldlM_cons]
  simp only [bind, after?, Option.bind_eq_some_iff]
  constructor
  · rintro ⟨middle, ⟨command, hcommand, hexecute⟩, hrest⟩
    exact ⟨command, middle, hcommand, hexecute, hrest⟩
  · rintro ⟨command, middle, hcommand, hexecute, hrest⟩
    exact ⟨middle, ⟨command, hcommand, hexecute⟩, hrest⟩

/-- Statements that are carried out are plain, and they keep a database sound. -/
theorem sound_foldlM_after? {statements : List Sql.Statement} (hdb : db.Sound)
    (h : statements.foldlM after? db = some next) :
    next.Sound ∧ ∀ statement ∈ statements, (Command.plain? statement).isSome = true := by
  induction statements generalizing db with
  | nil =>
      cases h
      exact ⟨hdb, by simp⟩
  | cons statement statements ih =>
      obtain ⟨command, middle, hcommand, hexecute, hrest⟩ := foldlM_after?_cons_iff.mp h
      obtain ⟨hnext, hplain⟩ := ih (sound_execute? hdb hexecute) hrest
      refine ⟨hnext, List.forall_mem_cons.mpr ⟨?_, hplain⟩⟩
      rw [hcommand]
      rfl

/-! ## Changes in place -/

/-- A change in place of a table that is shown does to it what the change means, with the column
that it adds as that is read back. -/
theorem inspect_change {change : SchemaChange} {T' : Table} (hdb : db.Regular)
    (hnormal : ∀ table column, change = .addColumn table column → column.IsNormal)
    (hT : db.inspect.tables.get? change.table = some T)
    (hchange : T.change? (change.mapColumn Column.readBack) = some T')
    (h : (Sql.Statement.ofChange change).foldlM after? db = some next) :
    next.Regular ∧ next.inspect = ⟨db.inspect.tables.insert change.table T'⟩ := by
  have hone {statement : Sql.Statement} (h : [statement].foldlM after? db = some next) :
      ∃ command, Command.plain? statement = some command ∧ db.execute? command = some next := by
    obtain ⟨command, middle, hcommand, hexecute, hrest⟩ := foldlM_after?_cons_iff.mp h
    cases hrest
    exact ⟨command, hcommand, hexecute⟩
  cases change with
  | addTable t => cases hchange
  | dropTable name => cases hchange
  | rebuildTable before after columns => cases hchange
  | addColumn table added =>
      obtain ⟨command, hcommand, hexecute⟩ := hone h
      obtain ⟨definition, hplain, rfl⟩ := Option.map_eq_some_iff.mp hcommand
      obtain ⟨-, hnames, hinspect⟩ :=
        inspect_addColumn? hdb.sound hdb.names (hnormal table added rfl) hplain hT hexecute
      refine ⟨⟨sound_addColumn? hdb.sound hexecute, hnames⟩, ?_⟩
      simp only [SchemaChange.mapColumn, Table.change?, Option.ite_none_left_eq_some,
        Option.some.injEq] at hchange
      rw [← hchange.2]
      exact hinspect
  | dropColumn table column =>
      obtain ⟨command, hcommand, hexecute⟩ := hone h
      cases hcommand
      simp only [SchemaChange.mapColumn, Table.change?, Option.ite_none_right_eq_some,
        Option.some.injEq] at hchange
      obtain ⟨hnames, hinspect⟩ := inspect_dropColumn? hdb.sound hdb.names hT hchange.1 hexecute
      refine ⟨⟨sound_dropColumn? hdb.sound hexecute, hnames⟩, ?_⟩
      rw [← hchange.2]
      exact hinspect
  | addIndex table index =>
      obtain ⟨command, hcommand, hexecute⟩ := hone h
      cases hcommand
      simp only [SchemaChange.mapColumn, Table.change?, Option.ite_none_left_eq_some,
        Option.some.injEq, Bool.or_eq_true, not_or, Bool.not_eq_true'] at hchange
      obtain ⟨⟨-, hcolumns⟩, rfl⟩ := hchange
      obtain ⟨hnames, hinspect⟩ :=
        inspect_createIndex? hdb.sound hdb.names hT (by simpa using hcolumns) hexecute
      exact ⟨⟨sound_createIndex? hdb.sound hexecute, hnames⟩, hinspect⟩
  | dropIndex table index =>
      obtain ⟨command, hcommand, hexecute⟩ := hone h
      cases hcommand
      simp only [SchemaChange.mapColumn, Table.change?, Option.ite_none_right_eq_some,
        Option.some.injEq] at hchange
      refine ⟨⟨sound_dropIndex? hdb.sound hexecute, namesColumns_dropIndex? hdb.names hexecute⟩, ?_⟩
      rw [← hchange.2]
      exact inspect_dropIndex? hdb.sound hT hchange.1 hexecute

/-- Changes in place of one table, one after the other. -/
theorem inspect_changes {changes : List SchemaChange} {T' : Table} (hdb : db.Regular)
    (hown : ∀ change ∈ changes, change.table = name)
    (hnormal : ∀ table column, .addColumn table column ∈ changes → column.IsNormal)
    (hT : db.inspect.tables.get? name = some T)
    (hchanges : (changes.map (SchemaChange.mapColumn Column.readBack)).foldlM Table.change? T =
      some T')
    (h : (Sql.Statement.ofChanges changes).foldlM after? db = some next) :
    next.Regular ∧ next.inspect = ⟨db.inspect.tables.insert name T'⟩ := by
  induction changes generalizing db T with
  | nil =>
      cases hchanges
      cases h
      exact ⟨hdb, by rw [NameMap.insert_of_get? hT]⟩
  | cons change changes ih =>
      rw [List.map_cons, List.foldlM_cons] at hchanges
      obtain ⟨middle, hfirst, hrest⟩ := Option.bind_eq_some_iff.mp hchanges
      rw [Sql.Statement.ofChanges, List.flatMap_cons, List.foldlM_append] at h
      obtain ⟨reached, hreached, hothers⟩ := Option.bind_eq_some_iff.mp h
      have htable := hown change List.mem_cons_self
      obtain ⟨hregular, hinspect⟩ := inspect_change hdb
        (fun table column heq => hnormal table column (heq ▸ List.mem_cons_self)) (htable ▸ hT)
        hfirst hreached
      rw [htable] at hinspect
      have hmiddle : reached.inspect.tables.get? name = some middle := by
        rw [hinspect]
        exact NameMap.get?_insert_self _ _ _
      obtain ⟨hnext, hlast⟩ := ih hregular
        (fun other hother => hown other (List.mem_cons_of_mem _ hother))
        (fun table column hcolumn => hnormal table column (List.mem_cons_of_mem _ hcolumn))
        hmiddle hrest hothers
      refine ⟨hnext, ?_⟩
      rw [hlast, hinspect, NameMap.insert_insert]

/-! ## Tables that come and go -/

/-- The indexes of a shape, on a table that has its columns and no index yet. -/
theorem inspect_createIndexes {shape : Table} (hdb : db.Regular) (hwell : shape.WellFormed)
    (hT : db.inspect.tables.get? name = some T) (hbare : T.indexes = .empty)
    (hcolumns : ∀ column, shape.hasColumn column = true → T.hasColumn column = true)
    (h : (Sql.Statement.createIndexes name shape).foldlM after? db = some next) :
    next.Regular ∧
      next.inspect = ⟨db.inspect.tables.insert name { T with indexes := shape.indexes }⟩ := by
  have hstatements : Sql.Statement.createIndexes name shape = Sql.Statement.ofChanges
      (shape.indexes.toList.map fun e => SchemaChange.addIndex name e.2) := by
    unfold Sql.Statement.createIndexes Sql.Statement.ofChanges NameMap.values NameMap.toList
    rw [List.map_map, List.flatMap_map]
    exact List.map_eq_flatMap
  have hget {e : String × Index} (he : e ∈ shape.indexes.toList) :
      shape.indexes.get? e.1 = some e.2 := NameMap.mem_toList_iff.mp he
  have hmade := Table.changes_addIndex name shape.indexes.toList T shape.indexes.keys_nodup
    (fun e he => hwell.ownName (hget he))
    (fun e _ => by rw [hbare]; rfl)
    (fun e he column hcolumn => hcolumns column (hwell.indexed (hget he) column hcolumn))
  have hall : shape.indexes.toList.foldl (fun m entry => m.insert entry.1 entry.2) T.indexes =
      shape.indexes := by
    rw [hbare]
    exact NameMap.ofList_entries shape.indexes
  rw [hall] at hmade
  rw [hstatements] at h
  refine inspect_changes hdb ?_ ?_ hT ?_ h
  · intro change hchange
    obtain ⟨e, -, rfl⟩ := List.mem_map.mp hchange
    rfl
  · intro table column hchange
    obtain ⟨e, -, heq⟩ := List.mem_map.mp hchange
    cases heq
  · rw [List.map_map]
    exact hmade

/-- A new table under a name that is shown. -/
theorem inspect_createTable {shape : Table} {rest : List Sql.Statement} (hdb : db.Regular)
    (hwell : shape.WellFormed) (hnormal : ∀ column ∈ shape.columns, column.IsNormal)
    (hshown : isHidden name = false)
    (h : (Sql.Statement.createTable name shape :: rest).foldlM after? db = some next) :
    ∃ middle, rest.foldlM after? middle = some next ∧ middle.Regular ∧ db.table? name = none ∧
      middle.inspect = ⟨db.inspect.tables.insert name
        { shape.readBack with name := name, indexes := .empty }⟩ := by
  obtain ⟨command, middle, hcommand, hexecute, hrest⟩ := foldlM_after?_cons_iff.mp h
  obtain ⟨definition, hplain, rfl⟩ := Option.map_eq_some_iff.mp hcommand
  have hcreate : db.createTable? name definition = some middle := hexecute
  obtain ⟨hnone, hinspect⟩ := inspect_createTable? hdb.sound hwell hnormal hplain hcreate
  rw [hshown, if_neg Bool.false_ne_true] at hinspect
  exact ⟨middle, hrest, ⟨sound_createTable? hdb.sound hcreate,
    namesColumns_createTable? hdb.sound hdb.names hcreate⟩, hnone, hinspect⟩

theorem hasColumn_readBack {t : Table} {column : String} :
    t.readBack.hasColumn column = t.hasColumn column := by
  rw [Bool.eq_iff_iff, Table.hasColumn_iff, Table.hasColumn_iff]
  simp [Table.readBack]

theorem inspect_addTable {t : Table} (hdb : db.Regular) (hwell : t.WellFormed)
    (hnormal : ∀ column ∈ t.columns, column.IsNormal) (hshown : isHidden t.name = false)
    (h : (Sql.Statement.ofChange (.addTable t)).foldlM after? db = some next) :
    next.Regular ∧ next.inspect = ⟨db.inspect.tables.insert t.name t.readBack⟩ := by
  obtain ⟨middle, hrest, hmiddle, -, hinspect⟩ := inspect_createTable hdb hwell hnormal hshown h
  have hthere : middle.inspect.tables.get? t.name =
      some { t.readBack with name := t.name, indexes := .empty } := by
    rw [hinspect]
    exact NameMap.get?_insert_self _ _ _
  obtain ⟨hnext, hlast⟩ := inspect_createIndexes hmiddle hwell hthere rfl
    (fun column hcolumn => hasColumn_readBack.trans hcolumn) hrest
  refine ⟨hnext, ?_⟩
  rw [hlast, hinspect, NameMap.insert_insert]
  rfl

theorem inspect_dropTable (hdb : db.Regular) (hT : db.inspect.tables.get? name = some T)
    {rest : List Sql.Statement}
    (h : (Sql.Statement.dropTable name :: rest).foldlM after? db = some next) :
    ∃ middle, rest.foldlM after? middle = some next ∧ middle.Regular ∧
      middle.inspect = ⟨db.inspect.tables.erase name⟩ := by
  obtain ⟨command, middle, hcommand, hexecute, hrest⟩ := foldlM_after?_cons_iff.mp h
  cases hcommand
  have hdrop : db.dropTable? name = some middle := hexecute
  exact ⟨middle, hrest, ⟨sound_dropTable? hdb.sound hdrop,
    namesColumns_dropTable? hdb.sound hdb.names hdrop⟩, inspect_dropTable? hdb.sound hT hdrop⟩

/-- The name that a table has while it is rebuilt is shown. -/
theorem isHidden_rebuildName (name : String) :
    isHidden (Sql.Statement.rebuildName name) = false := by
  have hfirst : (Text.lowerAscii (Sql.Statement.rebuildName name)).toList.head? = some '_' := by
    simp [Text.lowerAscii, Sql.Statement.rebuildName]
  unfold isHidden
  cases hcs : (Text.lowerAscii (Sql.Statement.rebuildName name)).toList with
  | nil => rfl
  | cons c cs =>
      rw [hcs] at hfirst
      cases hfirst
      simp

/-- The rows that are copied leave the schema as it is. -/
theorem inspect_copyRows {target source : String} {columns : List String}
    {rest : List Sql.Statement} (hdb : db.Regular)
    (h : ((if columns.isEmpty then [] else [Sql.Statement.copyRows target source columns]) ++ rest).foldlM after?
      db = some next) :
    ∃ middle, rest.foldlM after? middle = some next ∧ middle.Regular ∧
      middle.inspect = db.inspect := by
  split at h
  · exact ⟨db, h, hdb, rfl⟩
  · obtain ⟨command, middle, hcommand, hexecute, hrest⟩ := foldlM_after?_cons_iff.mp h
    cases hcommand
    have hsame := sameSchema_copyRows? hdb.sound.tables hexecute
    exact ⟨middle, hrest, ⟨sound_of_sameSchema hsame hdb.sound,
      namesColumns_of_sameSchema hsame hdb.names⟩, inspect_of_sameSchema hsame⟩

theorem ofChange_rebuildTable (before after : Table) (columns : List String) :
    Sql.Statement.ofChange (.rebuildTable before after columns) =
      Sql.Statement.createTable (Sql.Statement.rebuildName after.name) after ::
        ((if columns.isEmpty then []
          else [Sql.Statement.copyRows (Sql.Statement.rebuildName after.name) after.name columns]) ++
          (Sql.Statement.dropTable after.name ::
            .renameTable (Sql.Statement.rebuildName after.name) after.name ::
              Sql.Statement.createIndexes after.name after)) := by
  simp only [Sql.Statement.ofChange, List.append_assoc, List.cons_append, List.nil_append]

/-- A table that is rebuilt is shown with the columns and the key that are read back. -/
theorem inspect_rebuildTable {before after : Table} {columns : List String} (hdb : db.Regular)
    (hwell : after.WellFormed) (hnormal : ∀ column ∈ after.columns, column.IsNormal)
    (hT : db.inspect.tables.get? after.name = some T)
    (h : (Sql.Statement.ofChange (.rebuildTable before after columns)).foldlM after? db =
      some next) :
    next.Regular ∧ next.inspect = ⟨db.inspect.tables.insert after.name after.readBack⟩ := by
  obtain ⟨temporary, htemporary⟩ : ∃ temporary,
    temporary = Sql.Statement.rebuildName after.name := ⟨_, rfl⟩
  rw [ofChange_rebuildTable, ← htemporary] at h
  have hshown : isHidden temporary = false := htemporary ▸ isHidden_rebuildName after.name
  obtain ⟨created, h, hcreated, hnone, hcreate⟩ := inspect_createTable hdb hwell hnormal hshown h
  obtain ⟨filled, h, hfilled, hfill⟩ := inspect_copyRows hcreated h
  obtain ⟨t, ht, -, hname, -⟩ := exists_of_get?_inspect hdb.sound hT
  have hne : temporary ≠ after.name := by
    rintro hsame
    rw [hsame, ht] at hnone
    cases hnone
  have hfree : db.inspect.tables.get? temporary = none := by
    rw [get?_inspect hdb.sound, hnone]
    rfl
  have hold : filled.inspect.tables.get? after.name = some T := by
    rw [hfill, hcreate]
    exact (NameMap.get?_insert_of_ne _ _ hne).trans hT
  obtain ⟨dropped, h, hdropped, hdrop⟩ := inspect_dropTable hfilled hold h
  obtain ⟨command, renamed, hcommand, hexecute, h⟩ := foldlM_after?_cons_iff.mp h
  cases hcommand
  have hrename : dropped.renameTable? temporary after.name = some renamed := hexecute
  have hnew : dropped.inspect.tables.get? temporary =
      some { after.readBack with name := temporary, indexes := .empty } := by
    rw [hdrop, hfill, hcreate]
    show (NameMap.erase _ _).get? _ = _
    rw [NameMap.get?_erase, if_neg hne.symm, NameMap.get?_insert_self]
  have hinspect := inspect_renameTable? hdropped.sound hnew hname hrename
  have hregular : renamed.Regular := ⟨sound_renameTable? hdropped.sound hrename,
    namesColumns_renameTable? hdropped.sound hdropped.names hrename⟩
  have hthere : renamed.inspect.tables.get? after.name =
      some { after.readBack with name := after.name, indexes := .empty } := by
    rw [hinspect]
    exact NameMap.get?_insert_self _ _ _
  obtain ⟨hnext, hlast⟩ := inspect_createIndexes hregular hwell hthere rfl
    (fun column hcolumn => hasColumn_readBack.trans hcolumn) h
  refine ⟨hnext, hlast.trans (Realm.ext_get? fun key => ?_)⟩
  rw [hinspect, hdrop, hfill, hcreate]
  simp only [NameMap.get?_insert, NameMap.get?_erase]
  by_cases hkey : after.name = key
  · simp only [if_pos hkey]
    rfl
  · simp only [if_neg hkey]
    by_cases hother : temporary = key
    · rw [if_pos hother, ← hother]
      exact hfree.symm
    · simp only [if_neg hother]

end

end Sqlite.Database

end ProjectHub
