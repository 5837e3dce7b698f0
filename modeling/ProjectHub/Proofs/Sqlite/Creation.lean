import ProjectHub.Proofs.Sqlite.Clearing
import ProjectHub.Proofs.Sqlite.Convergence
import ProjectHub.Proofs.Sqlite.Dropping

/-!
# Creating a realm in an empty database

A definition of plain columns of different names is one that a table can have, and its
indexes can be created as long as their names are free. So a realm of such tables, of
which no two names are the same in any case, is created by its statements.
-/

namespace ProjectHub

open Sqlite
open Sql (Statement)
open Sql.Statement (takeFree)

/-! ## Tables that a database can hold -/

/-- A default that is one literal, with nothing around it. -/
def IsLiteral (text : String) : Prop :=
  (plainDefault? text).isSome = true ∧ text.toList.head? ≠ some '('

/-- A table that a database can hold and tells as it is. -/
structure Table.IsHoldable (t : Table) : Prop where
  someColumn : t.columns ≠ []
  fewColumns : t.columns.length ≤ maxColumns
  /-- No two columns have one name in any case. -/
  distinct : (t.columns.map fun c => Text.lowerAscii c.name).Nodup
  writable : ∀ c ∈ t.columns, Command.isWritable c.name = true
  types : ∀ c ∈ t.columns, (plainType? c.sqlType).isSome = true
  defaults : ∀ c ∈ t.columns, ∀ text, c.default = some text → IsLiteral text
  key : t.primaryKey.Nodup
  indexed : ∀ i ∈ t.indexes.values, i.columns ≠ [] ∧ i.columns.length ≤ maxColumns

/-- A realm that a database can hold and tells as it is. -/
structure Realm.IsHoldable (r : Realm) : Prop where
  wellFormed : r.WellFormed
  normal : r.IsNormal
  tables : ∀ t ∈ r.tables.values, t.IsHoldable
  /-- No two tables or indexes have one name in any case. -/
  distinct : r.HasDistinctNames
  writable : ∀ h ∈ r.holders, Command.isWritable h.name = true
  shown : ∀ h ∈ r.holders, isHidden h.name = false

instance (text : String) : Decidable (IsLiteral text) :=
  inferInstanceAs (Decidable (_ ∧ _))

theorem Table.isHoldable_iff {t : Table} : t.IsHoldable ↔
    t.columns ≠ [] ∧ t.columns.length ≤ maxColumns ∧
      (t.columns.map fun c => Text.lowerAscii c.name).Nodup ∧
      (∀ c ∈ t.columns, Command.isWritable c.name = true) ∧
      (∀ c ∈ t.columns, (plainType? c.sqlType).isSome = true) ∧
      (∀ c ∈ t.columns, ∀ text ∈ c.default.toList, IsLiteral text) ∧ t.primaryKey.Nodup ∧
      ∀ i ∈ t.indexes.values, i.columns ≠ [] ∧ i.columns.length ≤ maxColumns := by
  simp only [Option.mem_toList]
  constructor
  · intro h
    exact ⟨h.someColumn, h.fewColumns, h.distinct, h.writable, h.types, h.defaults, h.key, h.indexed⟩
  · rintro ⟨hsome, hfew, hdistinct, hwritable, htypes, hdefaults, hkey, hindexed⟩
    exact ⟨hsome, hfew, hdistinct, hwritable, htypes, hdefaults, hkey, hindexed⟩

instance (t : Table) : Decidable t.IsHoldable :=
  decidable_of_iff' _ Table.isHoldable_iff

instance (r : Realm) : Decidable r.IsHoldable :=
  decidable_of_iff
    (r.WellFormed ∧ (∀ e ∈ r.tables.toList, ∀ column ∈ e.2.columns,
        normalizeType column.sqlType = column.sqlType) ∧
      (∀ t ∈ r.tables.values, t.IsHoldable) ∧ r.HasDistinctNames ∧
      (∀ h ∈ r.holders, Command.isWritable h.name = true) ∧
      ∀ h ∈ r.holders, isHidden h.name = false)
    ⟨fun ⟨hw, hn, ht, hd, hwr, hs⟩ =>
        ⟨hw, fun h => hn _ (NameMap.mem_toList_iff.mpr h), ht, hd, hwr, hs⟩,
      fun h => ⟨h.wellFormed, fun _ he => h.normal (NameMap.mem_toList_iff.mp he), h.tables,
        h.distinct, h.writable, h.shown⟩⟩

section Definition

variable {shape : Table} {definition : TableDefinition}

theorem isSome_ofColumn? {column : Column} (htype : (plainType? column.sqlType).isSome = true)
    (hdefault : ∀ text, column.default = some text → IsLiteral text) :
    (ColumnDefinition.ofColumn? column).isSome = true := by
  obtain ⟨type, htype⟩ := Option.isSome_iff_exists.mp htype
  unfold ColumnDefinition.ofColumn?
  rw [htype]
  cases hcolumn : column.default with
  | none => rfl
  | some text =>
      obtain ⟨value, hvalue⟩ := Option.isSome_iff_exists.mp (hdefault text hcolumn).1
      simp [hvalue]

theorem exists_mapM_of_isSome {α β : Type} {f : α → Option β} {l : List α}
    (h : ∀ a ∈ l, (f a).isSome = true) : ∃ bs, l.mapM f = some bs := by
  induction l with
  | nil => exact ⟨[], rfl⟩
  | cons a l ih =>
      obtain ⟨b, hb⟩ := Option.isSome_iff_exists.mp (h a List.mem_cons_self)
      obtain ⟨bs, hbs⟩ := ih fun other hother => h other (List.mem_cons_of_mem _ hother)
      exact ⟨b :: bs, by rw [List.mapM_cons, hb, hbs]; rfl⟩

theorem Table.IsHoldable.exists_ofTable? (h : shape.IsHoldable) :
    ∃ definition, TableDefinition.ofTable? shape = some definition := by
  obtain ⟨ds, hds⟩ := exists_mapM_of_isSome fun column hcolumn =>
    isSome_ofColumn? (h.types column hcolumn) (h.defaults column hcolumn)
  refine ⟨⟨ds, keyConstraints shape.primaryKey, false, false⟩, ?_⟩
  have hempty : shape.columns.isEmpty = false := by simpa using h.someColumn
  unfold TableDefinition.ofTable?
  rw [hempty, hds]
  rfl

/-- What a holdable table is read back as is the table. -/
theorem Table.IsHoldable.readBack_eq (h : shape.IsHoldable) : shape.readBack = shape := by
  have hcolumns : shape.columns.map Column.readBack = shape.columns := by
    refine (List.map_congr_left fun column hcolumn => ?_).trans (List.map_id _)
    refine (readBack_eq_self_iff (isSome_ofColumn? (h.types column hcolumn)
      (h.defaults column hcolumn))).mpr fun text htext => (h.defaults column hcolumn text htext).2
  rw [Table.readBack, hcolumns, Table.eraseDups_eq_self_iff.mpr h.key]

/-- A constraint on quoted names of plain columns asks for one key at most, which can be made. -/
theorem exists_keys {cs : List StoredColumn}
    (hdistinct : (cs.map fun c => Text.lowerAscii c.name).Nodup)
    (hplain : ∀ c ∈ cs, c.collation = .binary ∧ c.generated = none) {names : List String}
    (hnames : ∀ name ∈ names, ∃ c ∈ cs, c.name = name) :
    ∃ asked, ((keyConstraints names).filterMap KeyRequest.ofTable?).mapM
        (fun r => (r.key? cs).map fun key => (r, key)) = some asked ∧
      ∀ isNumbered : Bool, ∃ keys, ((asked.map Prod.snd).filter fun key =>
        !(key.isPrimary && isNumbered)).foldlM Key.add? [] = some keys := by
  cases names with
  | nil => exact ⟨[], rfl, fun _ => ⟨[], rfl⟩⟩
  | cons name names =>
      have hrequest : (keyConstraints (name :: names)).filterMap KeyRequest.ofTable? =
          [⟨(name :: names).map KeyColumn.ofName, none, true, false, true, none⟩] := rfl
      rw [hrequest, List.mapM_cons, key?_of_names hdistinct hplain hnames _ rfl]
      refine ⟨_, rfl, fun isNumbered => ?_⟩
      cases isNumbered with
      | true => exact ⟨[], rfl⟩
      | false => exact ⟨_, rfl⟩

theorem once_of_keyConstraints (names : List String) :
    (((keyConstraints names).filterMap KeyRequest.ofTable?).filter KeyRequest.isPrimary).length ≤ 1 ∧
      ((keyConstraints names).filterMap KeyRequest.ofTable?).any KeyRequest.isOnce = false := by
  unfold keyConstraints
  split
  · exact ⟨Nat.zero_le _, rfl⟩
  · exact ⟨Nat.le_refl _, rfl⟩

/-- Columns that are not computed need nothing of each other. -/
theorem isSound_of_plain {t : StoredTable} (hsome : t.columns ≠ [])
    (hplain : ∀ c ∈ t.columns, c.generated = none) (hchecks : t.checks = [])
    (hreferences : t.foreignKeys = []) : t.isSound = true ∧ t.hasLoop = false := by
  have hcomputed (p : Expr × Bool → Bool) : (t.columns.filter fun c => c.generated.any p) = [] :=
    List.filter_eq_nil_iff.mpr fun c hc => by simp [hplain c hc]
  refine ⟨?_, ?_⟩
  · obtain ⟨c, hc⟩ := List.exists_mem_of_ne_nil _ hsome
    simp only [StoredTable.isSound, hchecks, hreferences, List.all_nil, Bool.and_true,
      Bool.and_eq_true, List.any_eq_true, List.all_eq_true]
    refine ⟨⟨c, hc, by rw [hplain c hc]; rfl⟩, fun d hd => by rw [hplain d hd]; rfl⟩
  · simp only [StoredTable.hasLoop, hcomputed]
    rfl

/-- A definition of a table with plain columns of different names asks for nothing that cannot
be. -/
theorem exists_ofDefinition? (name : String) (hwell : shape.WellFormed)
    (hnormal : ∀ column ∈ shape.columns, column.IsNormal) (hshape : shape.IsHoldable)
    (h : TableDefinition.ofTable? shape = some definition) :
    ∃ t, StoredTable.ofDefinition? name definition = some t ∧ t.rows = [] := by
  obtain ⟨ds, hds, rfl⟩ := columns_of_ofTable? h
  obtain ⟨cs, hcs, hplain, hall⟩ := columns_of_ofColumn? hnormal hds
  have hnames : cs.map StoredColumn.name = shape.columns.map Column.name := by
    have hboth := congrArg (List.map Column.name) hall
    rwa [List.map_map, List.map_map] at hboth
  have hlower : (cs.map fun c => Text.lowerAscii c.name) =
      shape.columns.map fun c => Text.lowerAscii c.name := by
    have hboth := congrArg (List.map Text.lowerAscii) hnames
    rwa [List.map_map, List.map_map] at hboth
  have hdistinct : (cs.map fun c => Text.lowerAscii c.name).Nodup := hlower ▸ hshape.distinct
  have hkeyed : ∀ name ∈ shape.primaryKey, ∃ c ∈ cs, c.name = name := by
    intro name hname
    obtain ⟨column, hcolumn, rfl⟩ := Table.hasColumn_iff.mp (hwell.key name hname)
    have hmem : column.name ∈ cs.map StoredColumn.name := hnames ▸ List.mem_map_of_mem hcolumn
    simpa using hmem
  have hdefinitions := isPlain_of_mapM hds
  obtain ⟨asked, hasked, hmade⟩ := exists_keys hdistinct hplain hkeyed
  obtain ⟨keys, hfold⟩ := hmade (asked.findSome? fun entry => entry.1.rowNumber? cs entry.2).isSome
  obtain ⟨hprimary, honce⟩ := once_of_keyConstraints shape.primaryKey
  rw [← requests_of_isPlain hdefinitions] at hasked hprimary honce
  have hcount : cs.length = shape.columns.length := by
    simpa using congrArg List.length hnames
  have hsome : cs ≠ [] := by
    rw [← List.length_pos_iff, hcount]
    exact List.length_pos_iff.mpr hshape.someColumn
  let definition : TableDefinition := ⟨ds, keyConstraints shape.primaryKey, false, false⟩
  let t := StoredTable.assembled name definition cs asked keys
  have hsound := isSound_of_plain (t := t) hsome (fun c hc => (hplain c hc).2)
    (checks_of_isPlain hdefinitions) (references_of_isPlain hdefinitions)
  have hmadeOf : StoredTable.MadeOf name definition cs cs asked keys t.withKeyColumns :=
    { columnsMade := hcs
      columnsTyped := rfl
      keysAsked := hasked
      keysJoined := hfold
      distinct := hdistinct
      few := hcount ▸ hshape.fewColumns
      single := hprimary
      once := by simp [definition, honce]
      keyed := by simp [definition]
      sound := hsound.1
      loopFree := hsound.2
      eq := rfl }
  exact ⟨_, ofDefinition?_eq_some_iff.mpr ⟨cs, cs, asked, keys, hmadeOf⟩, rfl⟩

end Definition

/-! ## Statements that are carried out -/

namespace Sqlite.Database

variable {db : Database} {held : List Holder} {name : String}

/-- A name that a listing of tables shows is none that the database keeps for itself. -/
theorem isReserved_of_shown (h : isHidden name = false) : isReserved name = false := by
  rw [Bool.eq_false_iff] at h ⊢
  intro hreserved
  refine h ?_
  obtain ⟨rest, hrest⟩ := List.isPrefixOf_iff_prefix.mp hreserved
  simp only [isHidden, Bool.and_eq_true, List.isPrefixOf_iff_prefix, decide_eq_true_eq]
  refine ⟨⟨'_' :: rest, by rw [← hrest]; simp⟩, ?_⟩
  rw [← hrest]
  simp

theorem isFree_of_isHeld (hheld : ∀ x, x ∈ db.holders ↔ x ∈ held) (hfree : isHeld held name = false)
    (hshown : isHidden name = false) : db.isFree name = true := by
  rw [isFree, isTaken_eq, isHeld_congr hheld, hfree, isReserved_of_shown hshown]
  rfl

/-- Indexes on columns of a table without rows are created where their names are free. -/
theorem foldlM_createIndexes {t : StoredTable} (hdb : db.Sound) (ht : db.table? name = some t)
    (hrows : t.rows = []) {indexes : List Index} (hsome : ∀ i ∈ indexes, i.columns ≠ [])
    (hshown : ∀ i ∈ indexes, isHidden i.name = false) (hheld : ∀ x, x ∈ db.holders ↔ x ∈ held)
    (hfree : takeFree held (indexes.map (Statement.createIndex name)) = true) :
    (indexes.map (Statement.createIndex name)).foldlM after? db =
      some { db with indexes := db.indexes ++ indexes.map (storedIndex name) } := by
  induction indexes generalizing db held with
  | nil => simp
  | cons i indexes ih =>
      obtain ⟨hi, hsome⟩ := List.forall_mem_cons.mp hsome
      obtain ⟨hthis, hshown⟩ := List.forall_mem_cons.mp hshown
      simp only [List.map_cons, takeFree, Statement.taken?, Option.all_some, Bool.and_eq_true,
        Bool.not_eq_true'] at hfree
      obtain ⟨hname, hrest⟩ := hfree
      have hstep : after? db (.createIndex name i) =
          some { db with indexes := db.indexes ++ [storedIndex name i] } := by
        have hparts : i.columns.mapM ((fun k => keyPart? t k.value) ∘ KeyColumn.ofName) =
            some (i.columns.map fun column => .column column none) :=
          mapM_eq_map fun column _ => keyPart?_ofName t column
        have hadmits (index : StoredIndex) : admitsIndex t index = true := by
          simp [admitsIndex, hrows]
        show db.createIndex? i.name name i.unique (i.columns.map KeyColumn.ofName) = _
        simp [createIndex?, ht, hparts, hadmits, isFree_of_isHeld hheld hname hthis, hi, storedIndex]
      have hnext := (holders_after? hdb hstep).1
      have hsound := sound_createIndex? hdb (show db.createIndex? _ _ _ _ = _ from hstep)
      rw [List.map_cons, List.foldlM_cons, hstep]
      refine (ih hsound ht hsome hshown (fun x => (hnext x).trans (Statement.holders_congr hheld _ x))
        hrest).trans ?_
      simp

/-- A holdable table is created with its indexes where its names are free, and told as it is. -/
theorem exists_addTable {t : Table} (hdb : db.Regular) (ht : t.IsHoldable) (hwell : t.WellFormed)
    (hnormal : ∀ column ∈ t.columns, column.IsNormal) (hshown : ∀ h ∈ t.holders, isHidden h.name = false)
    (hheld : ∀ x, x ∈ db.holders ↔ x ∈ held)
    (hfree : takeFree held (Statement.ofChange (.addTable t)) = true) :
    ∃ next, (Statement.ofChange (.addTable t)).foldlM after? db = some next ∧ next.Regular ∧
      next.inspect = ⟨db.inspect.tables.insert t.name t⟩ := by
  obtain ⟨definition, hdefinition⟩ := ht.exists_ofTable?
  obtain ⟨stored, hstored, hrows⟩ := exists_ofDefinition? t.name hwell hnormal ht hdefinition
  rw [Statement.ofChange, takeFree, Statement.taken?, Option.all_some, Bool.and_eq_true,
    Bool.not_eq_true'] at hfree
  have hname : isHidden t.name = false := hshown (.table t.name) t.table_mem_holders
  have hcreated : db.createTable? t.name definition =
      some { db with tables := db.tables ++ [stored] } := by
    simp [createTable?, hstored, isFree_of_isHeld hheld hfree.1 hname]
  have hcreate : after? db (.createTable t.name t) =
      some { db with tables := db.tables ++ [stored] } := by
    have hplain : Command.plain? (.createTable t.name t) =
        some (.createTable t.name definition false) := by
      rw [Command.plain?, hdefinition]
      rfl
    rw [after?, hplain, Option.bind_some, execute?, Bool.false_and, if_neg Bool.false_ne_true, hcreated]
  have hstoredAt : ({ db with tables := db.tables ++ [stored] } : Database).table? t.name =
      some stored := by
    have hfresh := (free_of_isFree (isFree_of_isHeld hheld hfree.1 hname)).1
    rw [table?_append, hfresh, (distinct_of_ofDefinition? hstored).1, sameName_self, if_pos rfl]
    rfl
  have hindexes := foldlM_createIndexes (sound_createTable? hdb.sound hcreated) hstoredAt hrows
    (fun i hi => (ht.indexed i hi).1)
    (fun i hi => hshown (.index i.name t.name) (List.mem_cons_of_mem _ (List.mem_map_of_mem hi)))
    (fun x => ((holders_after? hdb.sound hcreate).1 x).trans (Statement.holders_congr hheld _ x)) hfree.2
  have hall : (Statement.ofChange (.addTable t)).foldlM after? db = some { db with
      tables := db.tables ++ [stored]
      indexes := db.indexes ++ t.indexes.values.map (storedIndex t.name) } := by
    rw [Statement.ofChange, List.foldlM_cons, hcreate]
    exact hindexes
  obtain ⟨hregular, hinspect⟩ := inspect_addTable hdb hwell hnormal hname hall
  rw [ht.readBack_eq] at hinspect
  exact ⟨_, hall, hregular, hinspect⟩

/-- Holdable tables are created one after the other where their names are free. -/
theorem exists_addTables {ts : List Table} (hdb : db.Regular) (hts : ∀ t ∈ ts, t.IsHoldable ∧
      t.WellFormed ∧ (∀ column ∈ t.columns, column.IsNormal) ∧ ∀ h ∈ t.holders, isHidden h.name = false)
    (hheld : ∀ x, x ∈ db.holders ↔ x ∈ held)
    (hfree : takeFree held (Statement.ofChanges (ts.map .addTable)) = true) :
    ∃ next, (Statement.ofChanges (ts.map .addTable)).foldlM after? db = some next ∧
      next.inspect = ⟨ts.foldl (fun tables t => tables.insert t.name t) db.inspect.tables⟩ := by
  induction ts generalizing db held with
  | nil => exact ⟨db, rfl, rfl⟩
  | cons t ts ih =>
      obtain ⟨⟨ht, hwell, hnormal, hshown⟩, hts⟩ := List.forall_mem_cons.mp hts
      rw [List.map_cons, Statement.ofChanges, List.flatMap_cons, Statement.takeFree_append,
        Bool.and_eq_true] at hfree
      obtain ⟨middle, hmiddle, hregular, hinspect⟩ :=
        exists_addTable hdb ht hwell hnormal hshown hheld hfree.1
      obtain ⟨next, hnext, hall⟩ := ih hregular hts (holders_foldlM_after? hdb.sound hheld hmiddle).1
        hfree.2
      refine ⟨next, ?_, ?_⟩
      · rw [List.map_cons, Statement.ofChanges, List.flatMap_cons, List.foldlM_append, hmiddle]
        exact hnext
      · rw [hall, hinspect]
        rfl

/-- Plain statements that are carried out one after the other are carried out as a list. -/
theorem run?_of_foldlM_after? {next : Database} {statements : List Statement}
    (hwritable : ∀ statement ∈ statements, Command.isWritable statement.text = true)
    (h : statements.foldlM after? db = some next) (hnext : next.deferredHold = true) :
    db.run? statements = some next := by
  obtain ⟨commands, hcommands, hfold⟩ : ∃ commands, statements.mapM Command.ofStatement? =
      some commands ∧ commands.flatten.foldlM execute? db = some next := by
    induction statements generalizing db with
    | nil => exact ⟨[], rfl, h⟩
    | cons statement statements ih =>
        obtain ⟨hthis, hwritable⟩ := List.forall_mem_cons.mp hwritable
        obtain ⟨command, middle, hcommand, hexecute, hrest⟩ := foldlM_after?_cons_iff.mp h
        obtain ⟨commands, hcommands, hfold⟩ := ih hwritable hrest
        have hread : Command.ofStatement? statement = some [command] := by
          simp [Command.ofStatement?, hthis, hcommand]
        refine ⟨[command] :: commands, by rw [List.mapM_cons, hread, hcommands]; rfl, ?_⟩
        rw [List.flatten_cons, List.singleton_append, List.foldlM_cons, hexecute]
        exact hfold
  rw [run?, hcommands]
  show db.transact? commands.flatten = some next
  rw [transact?, hfold]
  exact if_pos hnext

theorem deferredHold_of_isPlain (hdb : db.IsPlain) : db.deferredHold = true := by
  refine List.all_eq_true.mpr fun t ht => ?_
  rw [(hdb.tables t ht).foreignKeys]
  rfl

end Sqlite.Database

/-! ## Texts that can be written -/

namespace Sqlite.Command

theorem isWritable_append (a b : String) : isWritable (a ++ b) = (isWritable a && isWritable b) := by
  simp [isWritable, Bool.not_or]

theorem isWritable_quoteName (name : String) : isWritable (Sql.quoteName name) = isWritable name := by
  have hdouble (cs : List Char) : '\x00' ∈ Sql.double '"' cs ↔ '\x00' ∈ cs := by
    simp only [Sql.double, List.mem_flatMap]
    constructor
    · rintro ⟨c, hc, hmem⟩
      split at hmem
      · simp at hmem
      · rwa [List.mem_singleton.mp hmem]
    · exact fun hmem => ⟨_, hmem, by simp⟩
  simp [isWritable, Sql.quoteName, Sql.enclose, hdouble]

theorem isWritable_intercalate {separator : String} (hseparator : isWritable separator = true)
    {texts : List String} (h : ∀ text ∈ texts, isWritable text = true) :
    isWritable (separator.intercalate texts) = true := by
  induction texts with
  | nil => rfl
  | cons first rest ih =>
      obtain ⟨hfirst, hrest⟩ := List.forall_mem_cons.mp h
      cases rest with
      | nil => rwa [String.intercalate_singleton]
      | cons next rest =>
          rw [String.intercalate_cons_cons, isWritable_append, isWritable_append, hfirst, hseparator,
            ih hrest]
          rfl

theorem isWritable_separator : isWritable ", " = true := by decide

theorem isWritable_of_bareLexemes? {text : String} (h : bareLexemes? text ≠ none) :
    isWritable text = true := by
  by_contra hnot
  have hnul : text.toList.contains '\x00' = true := by
    simpa only [isWritable, Bool.not_eq_true', Bool.not_eq_false] using hnot
  refine h ?_
  rw [bareLexemes?, lexemes?, hnul]
  rfl

theorem isWritable_type {text : String} (h : (plainType? text).isSome = true) :
    isWritable text = true := by
  refine isWritable_of_bareLexemes? fun hnone => ?_
  rw [plainType?, hnone] at h
  cases h

theorem isWritable_default {text : String} (h : (plainDefault? text).isSome = true) :
    isWritable text = true := by
  refine isWritable_of_bareLexemes? fun hnone => ?_
  rw [plainDefault?, hnone] at h
  cases h

theorem isWritable_nameList {names : List String} (h : ∀ name ∈ names, isWritable name = true) :
    isWritable (Sql.nameList names) = true := by
  refine isWritable_intercalate isWritable_separator fun text htext => ?_
  obtain ⟨name, hname, rfl⟩ := List.mem_map.mp htext
  rw [isWritable_quoteName]
  exact h name hname

theorem isWritable_createIndex {table : String} {index : Index} (htable : isWritable table = true)
    (hname : isWritable index.name = true) (hcolumns : ∀ c ∈ index.columns, isWritable c = true) :
    isWritable (Statement.createIndex table index).text = true := by
  have hunique : isWritable (if index.unique then "UNIQUE " else "") = true := by
    cases index.unique <;> decide
  have hmarks : (["CREATE ", "INDEX ", " ON ", " (", ")"].all isWritable) = true := by decide
  simp only [List.all_cons, List.all_nil, Bool.and_eq_true] at hmarks
  unfold Statement.text
  simp only [isWritable_append, isWritable_quoteName, htable, hname, hunique,
    isWritable_nameList hcolumns, hmarks, Bool.and_true]

theorem isWritable_createTable {name : String} {shape : Table} (hname : isWritable name = true)
    (hshape : shape.IsHoldable) (hkey : ∀ c ∈ shape.primaryKey, isWritable c = true) :
    isWritable (Statement.createTable name shape).text = true := by
  have hcolumn : ∀ c ∈ shape.columns, isWritable (Sql.columnDefinition c) = true := by
    intro c hc
    have hnull : isWritable (if c.nullable then "" else " NOT NULL") = true := by
      cases c.nullable <;> decide
    have hblank : isWritable " " = true := by decide
    simp only [Sql.columnDefinition, isWritable_append, isWritable_quoteName, hshape.writable c hc,
      isWritable_type (hshape.types c hc), hnull, hblank, Bool.true_and]
    cases hdefault : c.default with
    | none => decide
    | some text =>
        have hword : isWritable " DEFAULT " = true := by decide
        simp only [isWritable_append, hword, isWritable_default (hshape.defaults c hc text hdefault).1,
          Bool.and_true]
  have hparts : ∀ part ∈ Sql.tableParts shape, isWritable part = true := by
    intro part hpart
    rcases List.mem_append.mp hpart with hpart | hpart
    · obtain ⟨c, hc, rfl⟩ := List.mem_map.mp hpart
      exact hcolumn c hc
    · split at hpart
      · cases hpart
      · have hmarks : (["PRIMARY KEY (", ")"].all isWritable) = true := by decide
        simp only [List.all_cons, List.all_nil, Bool.and_eq_true] at hmarks
        simp only [List.mem_singleton.mp hpart, isWritable_append, isWritable_nameList hkey, hmarks,
          Bool.and_true]
  have hmarks : (["CREATE TABLE ", " (", ")"].all isWritable) = true := by decide
  simp only [List.all_cons, List.all_nil, Bool.and_eq_true] at hmarks
  unfold Statement.text
  simp only [isWritable_append, isWritable_quoteName, hname,
    isWritable_intercalate isWritable_separator hparts, hmarks, Bool.and_true]

end Sqlite.Command

namespace Realm

/-- Nothing is there at first, so each table is new. -/
theorem diff_empty (r : Realm) : empty.diff r = r.tables.values.map .addTable := by
  have hkeys : empty.tables.allKeys r.tables = r.tables.keys := by
    have hunion : ((NameMap.empty : NameMap Table).map fun _ => ()).union
        (r.tables.map fun _ => ()) = r.tables.map fun _ => () := by
      apply NameMap.ext_get?
      intro key
      rw [NameMap.get?_union]
      exact Option.or_none
    unfold NameMap.allKeys
    rw [show empty.tables = .empty from rfl, hunion]
    simp [NameMap.keys, NameMap.map]
  rw [diff, hkeys, NameMap.keys, NameMap.values, List.flatMap_map, List.map_map,
    List.map_eq_flatMap]
  refine List.flatMap_congr fun e he => ?_
  rw [diffAt, NameMap.get?_of_mem_entries he]
  rfl

/-- The statements for a holdable realm find all names free. -/
theorem IsHoldable.takeFree {r : Realm} (hr : r.IsHoldable) :
    takeFree [] (Statement.ofChanges (empty.diff r)) = true := by
  have hempty : empty.WellFormed := by decide
  refine (takeFree_diff_iff hempty hr.wellFormed List.nodup_nil hr.distinct).mpr ⟨?_, ?_, ?_⟩
  · intro wanted _ held hheld
    cases hheld
  · intro name hname
    cases hname
  · intro name hname
    cases hname

/-- A realm of one table with marks of the language in its names, whose key and index go through
the columns the other way round. -/
def quotedNames : Realm where
  tables := .ofList [("a\"b, c", {
    name := "a\"b, c"
    columns := [⟨"x) --", "VARCHAR(20)", false, some "'it''s'"⟩, ⟨",", "", true, none⟩,
      ⟨"select", "DOUBLE PRECISION", true, some "-1.5"⟩]
    primaryKey := ["select", "x) --"]
    indexes := .ofList [("in;dex", ⟨"in;dex", [",", "x) --", ","], true⟩)] })]

end Realm

end ProjectHub
