import ProjectHub.Proofs.Sqlite.Migration

/-!
# When a migration converges

A database tells what a change made as it was wanted, unless it keeps the name
of a new table to itself, drops the parentheses around a default, or tells a
column of a key once that was named twice. The statements of a difference leave
nothing to change just if none of their changes is such a one.
-/

namespace ProjectHub

namespace SchemaChange

/-- Whether a database tells what the change makes as the change has it. -/
def ReadsBack : SchemaChange → Prop
  | addTable t => Sqlite.isHidden t.name = false ∧ t.ReadsBack
  | rebuildTable _ after _ => after.ReadsBack
  | addColumn _ column => column.ReadsBack
  | _ => True

end SchemaChange

theorem forall_mem_changesInPlace_readsBack_iff {before after : Table} :
    (∀ change ∈ Table.changesInPlace before after, change.ReadsBack) ↔
      ∀ column ∈ Table.gainedColumns before after, column.ReadsBack := by
  rw [Table.changesInPlace_eq]
  constructor
  · intro h column hcolumn
    refine h (.addColumn after.name column) ?_
    simp only [List.mem_append, List.mem_map]
    exact .inl (.inr ⟨column, hcolumn, rfl⟩)
  · intro h change hchange
    simp only [List.mem_append, List.mem_map] at hchange
    rcases hchange with ((⟨_, -, rfl⟩ | ⟨_, -, rfl⟩) | ⟨column, hcolumn, rfl⟩) | ⟨_, -, rfl⟩
    · trivial
    · trivial
    · exact h column hcolumn
    · trivial

namespace Sqlite

/-- The columns of a plain shape are plain. -/
theorem plain_of_ofTable? {shape : Table} (h : (TableDefinition.ofTable? shape).isSome = true) :
    ∀ column ∈ shape.columns, (ColumnDefinition.ofColumn? column).isSome = true := by
  obtain ⟨definition, hdefinition⟩ := Option.isSome_iff_exists.mp h
  obtain ⟨ds, hds, -⟩ := columns_of_ofTable? hdefinition
  intro column hcolumn
  obtain ⟨d, -, hd⟩ := exists_item_of_mapM hds hcolumn
  rw [hd]
  rfl

namespace Database

variable {db next : Database} {current desired : Realm} {name : String}

theorem named_inspect (hdb : db.Sound) : db.inspect.Named := by
  constructor
  · intro name T hT
    obtain ⟨t, -, hname, -, rfl⟩ := exists_of_get?_inspect hdb hT
    exact hname
  · intro name T hT
    obtain ⟨t, ht, -, -, rfl⟩ := exists_of_get?_inspect hdb hT
    have hdistinct := nodup_columns hdb (sameName_of_table? ht).1
    show (((t.columns.filter fun c => c.generated.isNone).map StoredColumn.inspect).map
      Column.name).Nodup
    rw [List.map_map]
    exact hdistinct.sublist (List.filter_sublist.map _)

/-- A name that is kept to the database is that of no table shown. -/
theorem get?_inspect_of_isHidden (hdb : db.Sound) (hhidden : isHidden name = true) :
    db.inspect.tables.get? name = none := by
  rw [Option.eq_none_iff_forall_ne_some]
  intro T hT
  obtain ⟨t, -, -, hshown, -⟩ := exists_of_get?_inspect hdb hT
  rw [hhidden] at hshown
  cases hshown

/-! ## The changes of one table -/

/-- The changes in place from one shape to another lead to the other just if the columns they add
are read back. -/
theorem agrees_changesInPlace {before after : Table} (hdb : db.Regular)
    (hbefore : db.inspect.tables.get? name = some before) (hafter : after.WellFormed)
    (hnormal : ∀ column ∈ after.columns, column.IsNormal) (hname : after.name = name)
    (hchangeable : Table.Changeable before after)
    (h : (Sql.Statement.ofChanges (Table.changesInPlace before after)).foldlM after? db =
      some next) :
    next.Regular ∧ ∃ T, next.inspect = ⟨db.inspect.tables.insert name T⟩ ∧
      (T.Agrees after ↔ ∀ change ∈ Table.changesInPlace before after, change.ReadsBack) := by
  have hnamed := named_inspect hdb.sound
  have hdistinct := hnamed.distinct hbefore
  have hgained {table : String} {column : Column}
      (hchange : SchemaChange.addColumn table column ∈ Table.changesInPlace before after) :
      column ∈ Table.gainedColumns before after := by
    rw [Table.changesInPlace_eq] at hchange
    simp only [List.mem_append, List.mem_map, reduceCtorEq, and_false, exists_false, false_or,
      or_false] at hchange
    obtain ⟨found, hfound, heq⟩ := hchange
    cases heq
    exact hfound
  have hmade := hchangeable.changes_mapColumn hdistinct hafter Column.name_readBack
  obtain ⟨hnext, hinspect⟩ := inspect_changes hdb
    (fun change hchange => (Realm.table_of_mem_changesInPlace hchange).trans hname)
    (fun table column hchange =>
      hnormal column (Table.mem_gainedColumns_iff.mp (hgained hchange)).1) hbefore hmade h
  refine ⟨hnext, _, hinspect, ?_⟩
  rw [forall_mem_changesInPlace_readsBack_iff]
  have hperm := hchangeable.columns_perm hdistinct hafter
  have hplain : ∀ column ∈ Table.gainedColumns before after,
      (ColumnDefinition.ofColumn? column).isSome = true := by
    intro column hcolumn
    have hstatement : Sql.Statement.addColumn after.name column ∈
        Sql.Statement.ofChanges (Table.changesInPlace before after) := by
      refine List.mem_flatMap.mpr ⟨.addColumn after.name column, ?_, List.mem_singleton.mpr rfl⟩
      rw [Table.changesInPlace_eq]
      simpa using hcolumn
    have hsome := (sound_foldlM_after? hdb.sound h).2 _ hstatement
    simpa [Command.plain?] using hsome
  have hnames : ((Table.gainedColumns before after).map Column.name).Nodup :=
    hafter.distinct.sublist (List.filter_sublist.map _)
  rw [← map_readBack_perm_iff hnames hplain]
  constructor
  · intro hagrees
    exact (List.perm_append_left_iff _).mp (hagrees.columns.trans hperm.symm)
  · intro hgainedPerm
    refine ⟨(hnamed.ownName hbefore).trans hname.symm, hchangeable.primaryKey, rfl, ?_⟩
    exact (hgainedPerm.append_left _).trans hperm

/-- The columns of a table that statements create are plain. -/
theorem plain_of_createTable (hdb : db.Sound) {statements : List Sql.Statement} {shape : Table}
    (h : statements.foldlM after? db = some next) (hcreate : .createTable name shape ∈ statements) :
    ∀ column ∈ shape.columns, (ColumnDefinition.ofColumn? column).isSome = true :=
  plain_of_ofTable? (by simpa [Command.plain?] using (sound_foldlM_after? hdb h).2 _ hcreate)

/-- A table that is created is as it was wanted just if it is read back. -/
theorem agrees_addTable {t : Table} (hdb : db.Regular) (hwell : t.WellFormed)
    (hnormal : ∀ column ∈ t.columns, column.IsNormal) (hshown : isHidden t.name = false)
    (h : (Sql.Statement.ofChange (.addTable t)).foldlM after? db = some next) :
    next.Regular ∧ ∃ T, next.inspect = ⟨db.inspect.tables.insert t.name T⟩ ∧
      (T.Agrees t ↔ (SchemaChange.addTable t).ReadsBack) := by
  have hcreate : .createTable t.name t ∈ Sql.Statement.ofChange (.addTable t) := List.mem_cons_self
  have hplain := plain_of_createTable hdb.sound h hcreate
  obtain ⟨hnext, hinspect⟩ := inspect_addTable hdb hwell hnormal hshown h
  exact ⟨hnext, _, hinspect,
    (readBack_agrees_iff hwell.distinct hplain).trans (and_iff_right hshown).symm⟩

/-- So is a table that is rebuilt. -/
theorem agrees_rebuildTable {before after T : Table} {columns : List String} (hdb : db.Regular)
    (hwell : after.WellFormed) (hnormal : ∀ column ∈ after.columns, column.IsNormal)
    (hT : db.inspect.tables.get? after.name = some T)
    (h : (Sql.Statement.ofChange (.rebuildTable before after columns)).foldlM after? db =
      some next) :
    next.Regular ∧ ∃ T, next.inspect = ⟨db.inspect.tables.insert after.name T⟩ ∧
      (T.Agrees after ↔ (SchemaChange.rebuildTable before after columns).ReadsBack) := by
  have hcreate : .createTable (Sql.Statement.rebuildName after.name) after ∈
      Sql.Statement.ofChange (.rebuildTable before after columns) := List.mem_cons_self
  have hplain := plain_of_createTable hdb.sound h hcreate
  obtain ⟨hnext, hinspect⟩ := inspect_rebuildTable hdb hwell hnormal hT h
  exact ⟨hnext, _, hinspect, readBack_agrees_iff hwell.distinct hplain⟩

/-- A table that is told anew leaves all others as they are told. -/
theorem agrees_insert {T after : Table} {p : Prop} (hafter : desired.tables.get? name = some after)
    (hinspect : next.inspect = ⟨db.inspect.tables.insert name T⟩) (hagrees : T.Agrees after ↔ p) :
    Realm.SameBut name next.inspect db.inspect ∧
      (Option.Rel Table.Agrees (next.inspect.tables.get? name) (desired.tables.get? name) ↔ p) := by
  rw [hinspect]
  refine ⟨Realm.sameBut_insert _ _ _, ?_⟩
  rw [NameMap.get?_insert_self, hafter, ← hagrees]
  simp

/-- The changes for one name, all others left alone. -/
theorem agrees_diffAt (hdb : db.Regular) (hdesired : desired.WellFormed) (hnormal : desired.IsNormal)
    (hat : db.inspect.tables.get? name = current.tables.get? name)
    (hshown : ∀ t, .addTable t ∈ current.diffAt desired name → isHidden t.name = false)
    (h : (Sql.Statement.ofChanges (current.diffAt desired name)).foldlM after? db = some next) :
    next.Regular ∧ Realm.SameBut name next.inspect db.inspect ∧
      (Option.Rel Table.Agrees (next.inspect.tables.get? name) (desired.tables.get? name) ↔
        ∀ change ∈ current.diffAt desired name, change.ReadsBack) := by
  have hone (change : SchemaChange) :
      Sql.Statement.ofChanges [change] = Sql.Statement.ofChange change :=
    List.append_nil _
  rcases Realm.diffAt_cases current desired name with ⟨hsame, hnone⟩ |
    ⟨after, -, hafter, hadded⟩ | ⟨before, hbefore, hafter, hdropped⟩ |
    ⟨before, after, hbefore, hafter, hrebuilt⟩ |
    ⟨before, after, hbefore, hafter, hchangeable, hchanged⟩
  · rw [hnone] at h ⊢
    cases h
    refine ⟨hdb, fun _ _ => rfl, iff_of_true ?_ (by simp)⟩
    rw [hat, hsame]
    cases desired.tables.get? name with
    | none => exact .none
    | some after => exact .some (.refl after)
  · rw [hadded] at hshown h ⊢
    rw [hone] at h
    obtain ⟨hnext, T, hinspect, hagrees⟩ := agrees_addTable hdb (hdesired.tables hafter)
      (hnormal hafter) (hshown after (List.mem_singleton.mpr rfl)) h
    rw [hdesired.ownName hafter] at hinspect
    rw [List.forall_mem_singleton]
    exact ⟨hnext, agrees_insert hafter hinspect hagrees⟩
  · rw [hdropped] at h ⊢
    obtain ⟨middle, hrest, hnext, hinspect⟩ := inspect_dropTable hdb (hat.trans hbefore) h
    cases hrest
    rw [hinspect, List.forall_mem_singleton]
    refine ⟨hnext, ?_, iff_of_true ?_ trivial⟩
    · intro other hother
      exact (NameMap.get?_erase _ _ _).trans (if_neg hother.symm)
    · rw [NameMap.get?_erase_self, hafter]
      exact .none
  · rw [hrebuilt] at h ⊢
    rw [hone] at h
    have hname := hdesired.ownName hafter
    obtain ⟨hnext, T, hinspect, hagrees⟩ := agrees_rebuildTable hdb (hdesired.tables hafter)
      (hnormal hafter) ((hname ▸ hat).trans (hname ▸ hbefore)) h
    rw [hname] at hinspect
    rw [List.forall_mem_singleton]
    exact ⟨hnext, agrees_insert hafter hinspect hagrees⟩
  · rw [hchanged] at h ⊢
    obtain ⟨hnext, T, hinspect, hagrees⟩ := agrees_changesInPlace hdb (hat.trans hbefore)
      (hdesired.tables hafter) (hnormal hafter) (hdesired.ownName hafter) hchangeable h
    exact ⟨hnext, agrees_insert hafter hinspect hagrees⟩

/-! ## All changes -/

/-- The changes for some names, each once. -/
theorem agrees_flatMap_diffAt (hdesired : desired.WellFormed) (hnormal : desired.IsNormal)
    (names : List String) (hdistinct : names.Nodup) (hdb : db.Regular)
    (hat : ∀ name ∈ names, db.inspect.tables.get? name = current.tables.get? name)
    (hshown : ∀ t, .addTable t ∈ names.flatMap (current.diffAt desired) →
      isHidden t.name = false)
    (h : (Sql.Statement.ofChanges (names.flatMap (current.diffAt desired))).foldlM after? db =
      some next) :
    next.Regular ∧
      (∀ name, name ∉ names → next.inspect.tables.get? name = db.inspect.tables.get? name) ∧
      ((∀ name ∈ names,
          Option.Rel Table.Agrees (next.inspect.tables.get? name) (desired.tables.get? name)) ↔
        ∀ change ∈ names.flatMap (current.diffAt desired), change.ReadsBack) := by
  induction names generalizing db with
  | nil =>
      cases h
      exact ⟨hdb, fun _ _ => rfl, iff_of_true (by simp) (by simp)⟩
  | cons name names ih =>
      obtain ⟨hfresh, hrest⟩ := List.nodup_cons.mp hdistinct
      simp only [List.flatMap_cons, List.mem_append] at hshown
      rw [List.flatMap_cons, Sql.Statement.ofChanges, List.flatMap_append, List.foldlM_append] at h
      obtain ⟨middle, hfirst, hothers⟩ := Option.bind_eq_some_iff.mp h
      obtain ⟨hmiddle, hsame, hagrees⟩ := agrees_diffAt hdb hdesired hnormal
        (hat name List.mem_cons_self) (fun t ht => hshown t (.inl ht)) hfirst
      obtain ⟨hnext, hkept, hall⟩ := ih hrest hmiddle
        (fun other hother => (hsame other fun heq => hfresh (heq ▸ hother)).trans
          (hat other (List.mem_cons_of_mem _ hother)))
        (fun t ht => hshown t (.inr ht)) hothers
      refine ⟨hnext, ?_, ?_⟩
      · intro other hother
        obtain ⟨hne, hnotin⟩ := not_or.mp fun hor => hother (List.mem_cons.mpr hor)
        rw [hkept other hnotin, hsame other hne]
      · rw [List.forall_mem_cons, hkept name hfresh, hagrees, hall]
        simp only [List.flatMap_cons, List.mem_append, or_imp, forall_and]

/-- A table that the difference adds is wanted, and it was not there. -/
theorem wanted_of_mem_diff (hdesired : desired.WellFormed) {t : Table}
    (h : .addTable t ∈ current.diff desired) : desired.tables.get? t.name = some t := by
  obtain ⟨name, -, hchange⟩ := List.mem_flatMap.mp h
  rcases Realm.diffAt_cases current desired name with ⟨-, hnone⟩ | ⟨after, -, hafter, hadded⟩ |
    ⟨before, -, -, hdropped⟩ | ⟨before, after, -, -, hrebuilt⟩ | ⟨before, after, -, -, -, hchanged⟩
  · simp [hnone] at hchange
  · rw [hadded, List.mem_singleton, SchemaChange.addTable.injEq] at hchange
    rw [hchange, hdesired.ownName hafter, hafter]
  · simp [hdropped] at hchange
  · simp [hrebuilt] at hchange
  · simp [hchanged, Table.changesInPlace_eq] at hchange

/-- After the statements of a difference there is nothing to change just if all its changes are
read back. -/
theorem diff_inspect_run?_eq_nil_iff (hdb : db.Regular) (hdesired : desired.WellFormed)
    (hnormal : desired.IsNormal)
    (hplain : ∀ statement ∈ Sql.Statement.ofChanges (db.inspect.diff desired),
      (Command.plain? statement).isSome = true)
    (h : db.run? (Sql.Statement.ofChanges (db.inspect.diff desired)) = some next) :
    next.inspect.diff desired = [] ↔ ∀ change ∈ db.inspect.diff desired, change.ReadsBack := by
  have hfold := foldlM_after? hplain h
  have hnext := (sound_foldlM_after? hdb.sound hfold).1
  rw [Realm.diff_eq_nil_iff (named_inspect hnext) hdesired]
  by_cases hshown : ∀ t, .addTable t ∈ db.inspect.diff desired → isHidden t.name = false
  · obtain ⟨-, hkept, hall⟩ := agrees_flatMap_diffAt hdesired hnormal
      (db.inspect.tables.allKeys desired.tables) (NameMap.allKeys_nodup _ _) hdb (fun _ _ => rfl)
      hshown hfold
    refine Iff.trans ?_ hall
    constructor
    · intro hagrees name _
      exact hagrees name
    · intro hagrees name
      by_cases hmem : name ∈ db.inspect.tables.allKeys desired.tables
      · exact hagrees name hmem
      · rw [hkept name hmem]
        rw [NameMap.mem_allKeys_iff, not_or] at hmem
        rw [Option.not_isSome_iff_eq_none.mp hmem.1, Option.not_isSome_iff_eq_none.mp hmem.2]
        exact .none
  · -- A table that is kept to the database is wanted, and no later realm shows it.
    push Not at hshown
    obtain ⟨t, ht, hhidden⟩ := hshown
    have hhidden : isHidden t.name = true := by simpa using hhidden
    refine iff_of_false ?_ ?_
    · intro hagrees
      have hwanted := hagrees t.name
      rw [get?_inspect_of_isHidden hnext hhidden, wanted_of_mem_diff hdesired ht] at hwanted
      cases hwanted
    · intro hall
      have hshown := (hall _ ht).1
      rw [hhidden] at hshown
      cases hshown

end Database

end Sqlite

end ProjectHub
