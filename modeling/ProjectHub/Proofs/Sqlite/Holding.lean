import ProjectHub.Proofs.Sqlite.Migration

/-!
# Who holds the names of a database

Tables and indexes share one space of names, in which case does not count. A
statement that creates a table or an index, or gives a table another name, takes
a name; it is carried out only if nobody holds that name. What a list of
statements does to the names can be told without the columns and rows.
-/

namespace ProjectHub

open Sqlite

namespace Sqlite

/-- What holds a name: a table, or an index on a table. -/
inductive Holder where
  | table (name : String)
  | index (name owner : String)
  deriving DecidableEq

namespace Holder

/-- The name that is held. -/
def name : Holder → String
  | table name => name
  | index name _ => name

/-- The table the holder comes and goes with. -/
def home : Holder → String
  | table name => name
  | index _ owner => owner

/-- Whether the holder is an index. -/
def isIndex : Holder → Bool
  | table _ => false
  | index _ _ => true

/-- The holder after a table has got another name. -/
def renamed (old new : String) : Holder → Holder
  | table name => table (if sameName name old then new else name)
  | index name owner => index name (if sameName owner old then new else owner)

end Holder

/-- Whether a name is held, in whatever case. -/
def isHeld (held : List Holder) (name : String) : Bool :=
  held.any fun h => sameName h.name name

/-- The holders of the names of a database. -/
def Database.holders (db : Database) : List Holder :=
  db.tables.map (fun t => .table t.name) ++ db.indexes.map fun i => .index i.name i.table

end Sqlite

namespace Sql.Statement

/-- The name that a statement takes. -/
def taken? : Statement → Option String
  | createTable name _ => some name
  | renameTable _ newName => some newName
  | createIndex _ index => some index.name
  | _ => none

/-- The holders after a statement. -/
def holders (held : List Holder) : Statement → List Holder
  | createTable name _ => held ++ [.table name]
  | dropTable name => held.filter fun h => !sameName h.home name
  | renameTable name newName => held.map (.renamed name newName)
  | createIndex table index => held ++ [.index index.name table]
  | dropIndex name => held.filter fun h => !(h.isIndex && sameName h.name name)
  | _ => held

/-- Whether each of the statements takes a name that nobody holds at that point, if it takes one. -/
def takeFree (held : List Holder) : List Statement → Bool
  | [] => true
  | statement :: rest =>
    (statement.taken?.all fun name => !isHeld held name) && takeFree (statement.holders held) rest

end Sql.Statement

open Sql (Statement)
open Sql.Statement (takeFree)

/-! ## Names held -/

namespace Sqlite

variable {held other : List Holder} {name : String}

theorem isHeld_eq_false_iff :
    isHeld held name = false ↔ ∀ h ∈ held, sameName h.name name = false := by
  simp [isHeld]

theorem sameName_table_of_free (hfree : isHeld held name = false) {table : String}
    (htable : Holder.table table ∈ held) : sameName table name = false :=
  isHeld_eq_false_iff.mp hfree (.table table) htable

theorem isHeld_append :
    isHeld (held ++ other) name = (isHeld held name || isHeld other name) := by
  simp [isHeld]

theorem isHeld_congr (h : ∀ x, x ∈ held ↔ x ∈ other) : isHeld held name = isHeld other name := by
  rw [Bool.eq_iff_iff]
  simp [isHeld, h]

theorem Database.isTaken_eq (db : Database) (name : String) :
    db.isTaken name = isHeld db.holders name := by
  simp only [isTaken, table?, index?, List.isSome_find?, isHeld, holders, List.any_append,
    List.any_map]
  rfl

end Sqlite

namespace Sql.Statement

variable {held other : List Holder}

theorem holders_congr (h : ∀ x, x ∈ held ↔ x ∈ other) (statement : Statement) (x : Holder) :
    x ∈ statement.holders held ↔ x ∈ statement.holders other := by
  cases statement <;> simp [holders, h]

theorem takeFree_append (before after : List Statement) :
    takeFree held (before ++ after) =
      (takeFree held before && takeFree (before.foldl holders held) after) := by
  induction before generalizing held with
  | nil => rfl
  | cons statement before ih =>
      rw [List.cons_append, takeFree, takeFree, ih, List.foldl_cons, Bool.and_assoc]

theorem takeFree_of_taken?_eq_none {statements : List Statement}
    (h : ∀ statement ∈ statements, statement.taken? = none) : takeFree held statements = true := by
  induction statements generalizing held with
  | nil => rfl
  | cons statement statements ih =>
      rw [takeFree, h statement List.mem_cons_self,
        ih fun other hother => h other (List.mem_cons_of_mem _ hother)]
      rfl

/-- Each statement takes a free name just if, wherever the list is cut before a statement, the name
that this one takes is held by nobody. -/
theorem takeFree_iff {statements : List Statement} :
    takeFree held statements = true ↔ ∀ before statement after,
      statements = before ++ statement :: after → ∀ name ∈ statement.taken?,
        isHeld (before.foldl holders held) name = false := by
  induction statements generalizing held with
  | nil => simp [takeFree]
  | cons first statements ih =>
      rw [takeFree, Bool.and_eq_true, ih]
      constructor
      · rintro ⟨hfirst, hrest⟩ before statement after hcut name hname
        cases before with
        | nil =>
            cases hcut
            rw [hname] at hfirst
            simpa using hfirst
        | cons s before =>
            cases hcut
            exact hrest before statement after rfl name hname
      · intro hall
        constructor
        · cases hname : first.taken? with
          | none => rfl
          | some name => simpa using hall [] first statements rfl name hname
        · intro before statement after hcut
          exact hall (first :: before) statement after (by rw [hcut]; rfl)

end Sql.Statement

/-! ## What the database does -/

namespace Sqlite.Database

variable {db next : Database}

theorem holders_of_sameSchema {a b : Database} (h : a.SameSchema b) : a.holders = b.holders := by
  have htables (db : Database) : db.tables.map (fun t => Holder.table t.name) =
      (db.tables.map StoredTable.bare).map fun t => .table t.name := by
    rw [List.map_map]
    rfl
  rw [holders, holders, htables, h.tables, ← htables, h.indexes]

theorem holders_setTable (hdb : db.HasDistinctTables) {t wider : StoredTable} (ht : t ∈ db.tables)
    (hname : wider.name = t.name) : (db.setTable wider).holders = db.holders := by
  have htables : (db.setTable wider).tables.map (fun t => Holder.table t.name) =
      db.tables.map fun t => .table t.name := by
    rw [setTable, List.map_map]
    refine List.map_congr_left fun u hu => ?_
    rw [Function.comp_apply]
    split
    · rename_i hsame
      rw [hname] at hsame ⊢
      rw [eq_of_sameName hdb hu ht hsame]
    · rfl
  rw [holders, htables]
  rfl

theorem holders_settleNames (db : Database) : db.settleNames.holders = db.holders := by
  simp only [holders, settleNames, List.map_map]
  rfl

/-- What a statement that is carried out does to the holders of names, and that it takes a free
name. -/
theorem holders_after? (hdb : db.Sound) {statement : Statement}
    (h : after? db statement = some next) :
    (∀ x, x ∈ next.holders ↔ x ∈ statement.holders db.holders) ∧
      ∀ name ∈ statement.taken?, db.isTaken name = false := by
  obtain ⟨command, hcommand, hexecute⟩ := Option.bind_eq_some_iff.mp h
  have htaken {name : String} (hfree : db.isFree name = true) : db.isTaken name = false := by
    simp only [isFree, Bool.and_eq_true, Bool.not_eq_true'] at hfree
    exact hfree.1
  cases statement with
  | createTable name shape =>
      obtain ⟨definition, -, rfl⟩ := Option.map_eq_some_iff.mp hcommand
      obtain ⟨t, ht, hfree, rfl⟩ := createTable?_eq hexecute
      have hname := (distinct_of_ofDefinition? ht).1
      refine ⟨fun x => ?_, ?_⟩
      · simp only [holders, Statement.holders, List.map_append, List.map_singleton, hname,
          List.mem_append]
        tauto
      · rintro _ ⟨⟩
        exact htaken hfree
  | copyRows target source columns =>
      cases hcommand
      rw [holders_of_sameSchema (sameSchema_copyRows? hdb.tables hexecute)]
      exact ⟨fun x => Iff.rfl, by simp [Statement.taken?]⟩
  | dropTable name =>
      cases hcommand
      obtain ⟨left, hsame, rfl⟩ := dropTable?_eq hdb.tables hexecute
      refine ⟨fun x => ?_, by simp [Statement.taken?]⟩
      rw [← holders_of_sameSchema hsame]
      simp only [holders, Statement.holders, List.filter_append, List.filter_map]
      rfl
  | renameTable name newName =>
      cases hcommand
      obtain ⟨-, hfree, rfl⟩ := renameTable?_eq hexecute
      refine ⟨fun x => ?_, ?_⟩
      · have hindex (i : StoredIndex) :
            (if sameName i.table name then { i with table := newName } else i).name = i.name ∧
              (if sameName i.table name then { i with table := newName } else i).table =
                if sameName i.table name then newName else i.table := by
          split <;> exact ⟨rfl, rfl⟩
        simp only [holders, Statement.holders, List.map_append, List.map_map, Function.comp_def,
          hindex]
        rfl
      · rintro _ ⟨⟩
        exact htaken hfree
  | addColumn table column =>
      obtain ⟨definition, -, rfl⟩ := Option.map_eq_some_iff.mp hcommand
      obtain ⟨t, _, _, wider, ht, -, -, -, -, hname, -, -, -, -, rfl⟩ := addColumn?_eq hexecute
      rw [holders_setTable hdb.tables (sameName_of_table? ht).1 hname]
      exact ⟨fun x => Iff.rfl, by simp [Statement.taken?]⟩
  | dropColumn table column =>
      cases hcommand
      obtain ⟨t, place, ht, -, -, -, rfl⟩ := dropColumn?_eq hexecute
      have hmem : t ∈ db.settleNames.tables := (sameName_of_table? ht).1
      have hname : (withoutColumn t column place).name = t.name := rfl
      rw [holders_setTable (sound_settleNames hdb).tables hmem hname, holders_settleNames]
      exact ⟨fun x => Iff.rfl, by simp [Statement.taken?]⟩
  | createIndex table index =>
      cases hcommand
      obtain ⟨t, parts, -, -, hfree, rfl⟩ := createIndex?_eq hexecute
      refine ⟨fun x => ?_, ?_⟩
      · simp [holders, Statement.holders]
      · rintro _ ⟨⟩
        exact htaken hfree
  | dropIndex name =>
      cases hcommand
      rw [dropIndex?_eq hexecute]
      refine ⟨fun x => ?_, by simp [Statement.taken?]⟩
      simp only [holders, Statement.holders, List.filter_append, List.filter_map, Function.comp_def,
        Holder.isIndex, Holder.name, Bool.false_and, Bool.true_and, Bool.not_false,
        List.filter_true]

/-- Statements that are carried out do to the holders of names what they say, and each took a free
name. -/
theorem holders_foldlM_after? (hdb : db.Sound) {held : List Holder}
    (hheld : ∀ x, x ∈ db.holders ↔ x ∈ held) {statements : List Statement}
    (h : statements.foldlM after? db = some next) :
    (∀ x, x ∈ next.holders ↔ x ∈ statements.foldl Statement.holders held) ∧
      takeFree held statements = true := by
  induction statements generalizing db held with
  | nil =>
      cases h
      exact ⟨hheld, rfl⟩
  | cons statement statements ih =>
      rw [List.foldlM_cons] at h
      obtain ⟨middle, hstep, hrest⟩ := Option.bind_eq_some_iff.mp h
      obtain ⟨hmiddle, hfree⟩ := holders_after? hdb hstep
      obtain ⟨command, -, hexecute⟩ := Option.bind_eq_some_iff.mp hstep
      obtain ⟨hnext, htake⟩ := ih (sound_execute? hdb hexecute)
        (fun x => (hmiddle x).trans (Statement.holders_congr hheld statement x)) hrest
      refine ⟨hnext, ?_⟩
      rw [takeFree, htake, Bool.and_true, Option.all_eq_true]
      intro name hname
      rw [← isHeld_congr hheld, ← isTaken_eq, hfree name hname]
      rfl

end Sqlite.Database

end ProjectHub
