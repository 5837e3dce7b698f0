import ProjectHub.Proofs.Document.Canonical
import ProjectHub.Proofs.Sqlite.Clearing

/-!
# The names a document asks for

A document is read table after table, and the indexes of each are told apart by
themselves. So it may give one name to a table and an index, or to indexes of
two tables, although all of them share one space of names in a database. Of
such a document no database gets the tables: its statements take only free
names just if its names are distinct in any case and the names that are held
are given up in time.
-/

namespace ProjectHub

open Sqlite
open Sql (Statement)
open Sql.Statement (takeFree)

/-! ## Names that stay distinct -/

namespace Sqlite

/-- Holders of which no two have one name. -/
def Distinct (held : List Holder) : Prop :=
  ∀ a ∈ held, ∀ b ∈ held, sameName a.name b.name = true → a = b

variable {held : List Holder}

theorem Distinct.filter (h : Distinct held) (p : Holder → Bool) : Distinct (held.filter p) :=
  fun a ha b hb => h a (List.mem_of_mem_filter ha) b (List.mem_of_mem_filter hb)

theorem Distinct.append (h : Distinct held) {new : Holder} (hfree : isHeld held new.name = false) :
    Distinct (held ++ [new]) := by
  have hnew : ∀ a ∈ held, sameName a.name new.name = false := isHeld_eq_false_iff.mp hfree
  intro a ha b hb hsame
  rw [List.mem_append, List.mem_singleton] at ha hb
  rcases ha with ha | rfl <;> rcases hb with hb | rfl
  · exact h a ha b hb hsame
  · rw [hnew a ha] at hsame
    cases hsame
  · rw [sameName_comm, hnew b hb] at hsame
    cases hsame
  · rfl

theorem Distinct.renamed (h : Distinct held) {old new : String}
    (hfree : isHeld held new = false) : Distinct (held.map (.renamed old new)) := by
  have hnew : ∀ a ∈ held, sameName a.name new = false := isHeld_eq_false_iff.mp hfree
  -- a holder keeps its name, or it is the table of the old name and gets the new one
  have hname (a : Holder) : (a.renamed old new).name = a.name ∨
      (a.renamed old new).name = new ∧ sameName a.name old = true := by
    cases a with
    | table name =>
        by_cases hold : sameName name old = true
        · exact .inr ⟨if_pos hold, hold⟩
        · exact .inl (if_neg hold)
    | index name owner => exact .inl rfl
  simp only [Distinct, List.forall_mem_map]
  intro a ha b hb hsame
  refine congrArg _ ?_
  rcases hname a with hkeep | ⟨hmove, hold⟩ <;> rcases hname b with hkeep' | ⟨hmove', hold'⟩
  · rw [hkeep, hkeep'] at hsame
    exact h a ha b hb hsame
  · rw [hkeep, hmove', hnew a ha] at hsame
    cases hsame
  · rw [hmove, hkeep', sameName_comm, hnew b hb] at hsame
    cases hsame
  · exact h a ha b hb (by rw [sameName_left hold, sameName_comm, hold'])

end Sqlite

namespace Sql.Statement

variable {held : List Holder}

/-- A statement that takes a free name, if any, leaves no two holders of one name. -/
theorem distinct_holders {statement : Statement} (h : Distinct held)
    (hfree : ∀ name ∈ statement.taken?, isHeld held name = false) :
    Distinct (statement.holders held) := by
  cases statement with
  | createTable name shape => exact h.append (hfree name rfl)
  | renameTable name newName => exact h.renamed (hfree newName rfl)
  | createIndex table index => exact h.append (hfree index.name rfl)
  | dropTable name | dropIndex name => exact h.filter _
  | copyRows | addColumn | dropColumn => exact h

theorem distinct_foldl_holders {statements : List Statement} (h : Distinct held)
    (hfree : takeFree held statements = true) : Distinct (statements.foldl holders held) := by
  induction statements generalizing held with
  | nil => exact h
  | cons statement statements ih =>
      rw [takeFree, Bool.and_eq_true, Option.all_eq_true] at hfree
      refine ih (distinct_holders h fun name hname => ?_) hfree.2
      simpa using hfree.1 name hname

end Sql.Statement

/-! ## The names of a realm -/

theorem Table.nodup_indexes {t : Table} (ht : t.WellFormed) :
    (t.indexes.values.map Index.name).Nodup := by
  rw [NameMap.map_values ht.ownName]
  exact NameMap.keys_nodup _

theorem Table.holders_nodup {t : Table} (ht : t.WellFormed) : t.holders.Nodup := by
  have hindexes : (t.indexes.values.map fun i => Holder.index i.name t.name).Nodup := by
    refine List.Nodup.of_map Holder.name ?_
    rw [List.map_map]
    exact nodup_indexes ht
  refine List.nodup_cons.mpr ⟨fun hmem => ?_, hindexes⟩
  obtain ⟨i, -, hi⟩ := List.mem_map.mp hmem
  cases hi

namespace Realm

variable {r : Realm}

theorem nodup_tables (hr : r.WellFormed) : (r.tables.values.map Table.name).Nodup := by
  rw [NameMap.map_values hr.ownName]
  exact NameMap.keys_nodup _

theorem wellFormed_of_mem_values (hr : r.WellFormed) {t : Table} (ht : t ∈ r.tables.values) :
    t.WellFormed := by
  obtain ⟨name, hname⟩ := NameMap.mem_values_iff.mp ht
  exact hr.tables hname

theorem holders_nodup (hr : r.WellFormed) : r.holders.Nodup := by
  refine List.nodup_flatMap.mpr
    ⟨fun t ht => Table.holders_nodup (wellFormed_of_mem_values hr ht), ?_⟩
  refine (List.pairwise_map.mp (nodup_tables hr)).imp fun hne => ?_
  -- what belongs to two tables has two homes
  intro h ha hb
  exact hne ((Table.home_of_mem_holders ha).symm.trans (Table.home_of_mem_holders hb))

theorem hasDistinctNames_iff (hr : r.WellFormed) : r.HasDistinctNames ↔ Distinct r.holders := by
  simp only [HasDistinctNames, List.nodup_map_iff_inj_on (holders_nodup hr), Distinct, sameName_iff]

/-- The tables of a well-formed realm have names of their own, and so have the indexes of each of
them. All these names are distinct just if no index has the name of a table or of an index on
another table. -/
theorem nodup_names_iff (hr : r.WellFormed) : (r.holders.map Holder.name).Nodup ↔
    ∀ t ∈ r.tables.values, ∀ i ∈ t.indexes.values, ∀ u ∈ r.tables.values,
      i.name ≠ u.name ∧ (u ≠ t → ∀ j ∈ u.indexes.values, i.name ≠ j.name) := by
  rw [List.nodup_map_iff_inj_on (holders_nodup hr)]
  have hmem {t : Table} (ht : t ∈ r.tables.values) {h : Holder} (hh : h ∈ t.holders) :
      h ∈ r.holders := List.mem_flatMap.mpr ⟨t, ht, hh⟩
  have hindex {t : Table} (ht : t ∈ r.tables.values) {i : Index} (hi : i ∈ t.indexes.values) :
      .index i.name t.name ∈ r.holders :=
    hmem ht (Table.index_mem_holders_iff.mpr ⟨rfl, i, hi, rfl⟩)
  have htable {t u : Table} (ht : t ∈ r.tables.values) (hu : u ∈ r.tables.values)
      (hname : t.name = u.name) : t = u := List.inj_on_of_nodup_map (nodup_tables hr) ht hu hname
  constructor
  · intro hall t ht i hi u hu
    refine ⟨fun hname => ?_, fun hne j hj hname => ?_⟩
    · cases hall _ (hindex ht hi) _ (hmem hu u.table_mem_holders) hname
    · have hsame := hall _ (hindex ht hi) _ (hindex hu hj) hname
      exact hne (htable hu ht (congrArg Holder.home hsame).symm)
  · intro hall a ha b hb hname
    obtain ⟨t, ht, ha⟩ := List.mem_flatMap.mp ha
    obtain ⟨u, hu, hb⟩ := List.mem_flatMap.mp hb
    rw [Table.holders, List.mem_cons, List.mem_map] at ha hb
    rcases ha with rfl | ⟨i, hi, rfl⟩ <;> rcases hb with rfl | ⟨j, hj, rfl⟩
    · exact congrArg Holder.table hname
    · exact absurd hname.symm (hall u hu j hj t ht).1
    · exact absurd hname (hall t ht i hi u hu).1
    · by_cases htu : u = t
      · exact congrArg₂ Holder.index hname (congrArg Table.name htu.symm)
      · exact absurd hname ((hall t ht i hi u hu).2 htu j hj)

/-! ## The statements for a realm -/

section Turns

variable {current desired : Realm} (hcurrent : current.WellFormed) (hdesired : desired.WellFormed)
  {held : List Holder} {name : String}

include hdesired in
/-- Where the statements for a table take free names, a rebuild finds its temporary name free. -/
theorem isHeld_rebuildName (hrebuilt : current.rebuilds desired name = true)
    (hfree : takeFree held (Statement.ofChanges (diffAt current desired name)) = true) :
    isHeld held (Statement.rebuildName name) = false := by
  unfold rebuilds at hrebuilt
  split at hrebuilt
  · rename_i before after hbefore hafter
    obtain rfl := hdesired.ownName hafter
    simp only [Table.isRebuilt, Bool.and_eq_true, decide_eq_true_eq] at hrebuilt
    rw [diffAt, hbefore, hafter] at hfree
    simp only [Table.diff, if_neg hrebuilt.1, if_pos hrebuilt.2, Statement.ofChanges,
      List.flatMap_singleton, (Table.takeFree_rebuildTable_eq _).1, Bool.and_eq_true,
      Bool.not_eq_true'] at hfree
    exact hfree.1
  · cases hrebuilt

include hcurrent hdesired in
/-- Statements that take only free names leave the names of the desired realm. -/
theorem mem_foldl_flatMap {todo : List String} (hdistinct : todo.Nodup)
    (hbetween : Between current desired todo held) (htidy : Tidy held)
    (hfree : takeFree held (Statement.ofChanges (todo.flatMap (diffAt current desired))) = true)
    (h : Holder) :
    h ∈ (Statement.ofChanges (todo.flatMap (diffAt current desired))).foldl Statement.holders held ↔
      h ∈ desired.holders := by
  induction todo generalizing held with
  | nil => exact (hbetween h).trans (by simp)
  | cons name todo ih =>
      obtain ⟨hnot, hdistinct⟩ := List.nodup_cons.mp hdistinct
      rw [List.flatMap_cons, Statement.ofChanges, List.flatMap_append, ← Statement.ofChanges,
        Statement.takeFree_append, Bool.and_eq_true] at hfree
      have hnext := mem_foldl_diffAt hcurrent hdesired hbetween htidy
        fun hrebuilt => isHeld_rebuildName hdesired hrebuilt hfree.1
      have htidy' : Tidy ((Statement.ofChanges (diffAt current desired name)).foldl
          Statement.holders held) :=
        ⟨Statement.distinct_foldl_holders htidy.distinct hfree.1, housed_turn htidy.housed hnext⟩
      rw [List.flatMap_cons, Statement.ofChanges, List.flatMap_append, List.foldl_append]
      exact ih hdistinct (between_turn hnot hbetween hnext) htidy' hfree.2

end Turns

/-- The statements of a difference take free names just if the names that are wanted are distinct in
any case and the names that are held are given up in time. -/
theorem takeFree_iff {current desired : Realm} (hcurrent : current.WellFormed)
    (hdesired : desired.WellFormed) (hheld : current.HasDistinctNames) :
    takeFree current.holders (Statement.ofChanges (current.diff desired)) = true ↔
      desired.HasDistinctNames ∧ current.ClearsFor desired := by
  constructor
  · intro hfree
    have htidy := tidy_holders hheld
    have hleft := mem_foldl_flatMap hcurrent hdesired (NameMap.allKeys_nodup _ _)
      (between_allKeys hcurrent hdesired) htidy hfree
    have hwanted : desired.HasDistinctNames := by
      refine (hasDistinctNames_iff hdesired).mpr fun a ha b hb => ?_
      exact Statement.distinct_foldl_holders htidy.distinct hfree a ((hleft a).mpr ha) b
        ((hleft b).mpr hb)
    exact ⟨hwanted, (takeFree_diff_iff hcurrent hdesired hheld hwanted).mp hfree⟩
  · rintro ⟨hwanted, hclears⟩
    exact (takeFree_diff_iff hcurrent hdesired hheld hwanted).mpr hclears

/-- Of the names in a document, those of the tables are distinct, and so are those of the indexes of
one table. No more is seen to when it is read: an index may have the name of a table or of an index
on another table. Its statements, whatever realm they start from, take only free names just if its
names are distinct in any case and the realm gives up its own in time; no database carries them out
otherwise. -/
theorem names_of_parse {document : String} {r : Realm} (h : Realm.parse document = .ok r) :
    (r.tables.values.map Table.name).Nodup ∧
    (∀ t ∈ r.tables.values, (t.indexes.values.map Index.name).Nodup) ∧
    ((r.holders.map Holder.name).Nodup ↔
      ∀ t ∈ r.tables.values, ∀ i ∈ t.indexes.values, ∀ u ∈ r.tables.values,
        i.name ≠ u.name ∧ (u ≠ t → ∀ j ∈ u.indexes.values, i.name ≠ j.name)) ∧
    ∀ current : Realm, current.WellFormed → current.HasDistinctNames →
      (takeFree current.holders (Statement.ofChanges (current.diff r)) = true ↔
        r.HasDistinctNames ∧ current.ClearsFor r) ∧
      ∀ db next : Database, db.Sound → (∀ x, x ∈ db.holders ↔ x ∈ current.holders) →
        (∀ statement ∈ Statement.ofChanges (current.diff r),
          (Command.plain? statement).isSome = true) →
        db.run? (Statement.ofChanges (current.diff r)) = some next →
          r.HasDistinctNames ∧ current.ClearsFor r := by
  have hr := (wellFormed_parse h).1
  refine ⟨nodup_tables hr, fun t ht => Table.nodup_indexes (wellFormed_of_mem_values hr ht),
    nodup_names_iff hr, fun current hcurrent hheld => ?_⟩
  have hiff := takeFree_iff hcurrent hr hheld
  refine ⟨hiff, fun db next hdb hholders hplain hrun => hiff.mp ?_⟩
  exact (Database.holders_foldlM_after? hdb hholders (Database.foldlM_after? hplain hrun)).2

/-- Two tables with an index of one name. -/
def sharingIndex : Realm where
  tables := .ofList (["a", "b"].map fun name =>
    (name, ⟨name, [.ofType "id" "integer"], [], .ofList [("i", ⟨"i", ["id"], false⟩)]⟩))

end Realm

/-- A document of two tables with an index of one name. -/
def Document.sharedIndex : String :=
  "table \"a\" \x7b\n" ++
    "  column \"id\" \x7b type = integer \x7d\n" ++
    "  index \"i\" \x7b columns = [id] \x7d\n" ++
  "\x7d\n" ++
  "table \"b\" \x7b\n" ++
    "  column \"id\" \x7b type = integer \x7d\n" ++
    "  index \"i\" \x7b columns = [id] \x7d\n" ++
  "\x7d\n"

theorem Realm.parse_sharedIndex : Realm.parse Document.sharedIndex = .ok sharingIndex := by
  refine parse_of_tokens [] (["a", "b"].map fun name => ⟨"table", [name], [],
    [⟨"column", ["id"], [⟨"type", .ident "integer", 0⟩], [], 0⟩,
    ⟨"index", ["i"], [⟨"columns", .list [.ident "id"], 0⟩], [], 0⟩], 0⟩) ?_ rfl ?_ ?_
  · unfold Document.tokens Document.sharedIndex
    simp only [String.toList_append, -String.reduceAppend, -String.reduceToList]
    decide +kernel
  · decide +kernel
  · decide +kernel

/-- A document that is read although no database gets its tables. -/
theorem Realm.names_of_parse_sharedIndex :
    Realm.parse Document.sharedIndex = .ok sharingIndex ∧
      ¬(sharingIndex.holders.map Holder.name).Nodup ∧
      Database.empty.run? (Statement.ofChanges (empty.diff sharingIndex)) = none := by
  obtain ⟨-, -, hnames, hrun⟩ := names_of_parse parse_sharedIndex
  refine ⟨parse_sharedIndex, ?_, ?_⟩
  · rw [hnames]
    decide +kernel
  · have hplain : ∀ statement ∈ Statement.ofChanges (empty.diff sharingIndex),
        (Command.plain? statement).isSome = true := by
      decide +kernel
    have hnot : ¬sharingIndex.HasDistinctNames := by decide +kernel
    refine Option.eq_none_iff_forall_ne_some.mpr fun next hnext => hnot ?_
    exact ((hrun empty (by decide) List.nodup_nil).2 _ next Database.sound_empty
      (fun _ => Iff.rfl) hplain hnext).1

end ProjectHub
