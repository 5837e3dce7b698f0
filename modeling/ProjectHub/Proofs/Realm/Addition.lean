import ProjectHub.Proofs.Realm.Blocks
import ProjectHub.Proofs.Sql.Literal

/-!
# Defaults of added columns

A column can be added to a table in place only with a constant default, as the rows that
are there take it. Main statement: a default that comes in place is a literal or looks
like one, and a table that gains a column with any other default is built anew.
-/

namespace ProjectHub

theorem Table.needsValues_eq_false_iff {column : Column} {text : String}
    (h : column.default = some text) :
    Table.needsValues column = false ↔
      Sql.Literal (Text.trimChars text.toList) ∨ Sql.Lookalike (Text.trimChars text.toList) := by
  rw [← Sql.isConstant_iff, Table.needsValues, h, Bool.not_eq_false']

namespace Realm

open Table (Changeable gainedColumns needsValues sharedColumns)

section

variable {current desired : Realm} (hcurrent : current.WellFormed) (hdesired : desired.WellFormed)
include hcurrent hdesired

theorem table_of_mem_diffAt {name : String} {step : SchemaChange}
    (h : step ∈ current.diffAt desired name) : step.table = name := by
  have hne : current.tables.get? name ≠ desired.tables.get? name := by
    intro hsame
    rw [diffAt_eq_nil hsame] at h
    cases h
  obtain ⟨change, hleads, hat⟩ := exists_leads hcurrent hdesired hne
  exact hleads.table_eq (fun _ ht => hdesired.ownName ht) (hat ▸ h)

/-- The steps for one table are those of the difference that mention it. -/
theorem mem_diffAt_iff {name : String} {step : SchemaChange} :
    step ∈ current.diffAt desired name ↔ step ∈ current.diff desired ∧ step.table = name := by
  constructor
  · intro h
    refine ⟨List.mem_flatMap.2 ⟨name, NameMap.mem_allKeys_iff.2 ?_, h⟩,
      table_of_mem_diffAt hcurrent hdesired h⟩
    by_contra hnone
    rw [diffAt_eq_nil (by simp_all)] at h
    cases h
  · rintro ⟨h, rfl⟩
    obtain ⟨name, -, hat⟩ := List.mem_flatMap.1 h
    rwa [table_of_mem_diffAt hcurrent hdesired hat]

end

section Both

variable {current desired : Realm} {name : String} {before after : Table}
  (hbefore : current.tables.get? name = some before) (hafter : desired.tables.get? name = some after)
include hbefore hafter

theorem diffAt_of_not_changeable (h : ¬before.Changeable after) (hne : before ≠ after) :
    current.diffAt desired name =
      [.rebuildTable before after (sharedColumns before after)] := by
  have hrebuild : Table.needsRebuild before after = true := by
    rwa [← Bool.not_eq_false, Table.needsRebuild_eq_false_iff]
  simp only [diffAt, hbefore, hafter, Table.diff, if_neg hne, hrebuild, if_true]

theorem diffAt_of_changeable (h : before.Changeable after) (hne : before ≠ after) :
    current.diffAt desired name = Table.changesInPlace before after := by
  simp only [diffAt, hbefore, hafter, Table.diff, if_neg hne,
    Table.needsRebuild_eq_false_iff.2 h, Bool.false_eq_true, if_false]

end Both

theorem ne_of_mem_gainedColumns {before after : Table} {column : Column}
    (h : column ∈ gainedColumns before after) : before ≠ after := by
  rintro rfl
  obtain ⟨hmem, hnone⟩ := Table.mem_gainedColumns_iff.1 h
  rw [Table.hasColumn_iff.2 ⟨column, hmem, rfl⟩] at hnone
  cases hnone

/-- The columns that are added in place are those that a table gains which can be changed so. -/
theorem addColumn_mem_diff_iff {current desired : Realm} (hcurrent : current.WellFormed)
    (hdesired : desired.WellFormed) {name : String} {column : Column} :
    SchemaChange.addColumn name column ∈ current.diff desired ↔
      ∃ before after, current.tables.get? name = some before ∧
        desired.tables.get? name = some after ∧ before.Changeable after ∧
          column ∈ gainedColumns before after := by
  have hmem : SchemaChange.addColumn name column ∈ current.diff desired ↔
      SchemaChange.addColumn name column ∈ current.diffAt desired name := by
    rw [mem_diffAt_iff hcurrent hdesired]
    exact (and_iff_left rfl).symm
  rw [hmem]
  constructor
  · intro h
    obtain ⟨-, hat⟩ | ⟨after, -, -, hat⟩ | ⟨before, -, -, hat⟩ | ⟨before, after, -, -, hat⟩ |
      ⟨before, after, hbefore, hafter, hplace, hat⟩ := diffAt_cases current desired name
    all_goals rw [hat] at h
    · cases h
    · simp at h
    · simp at h
    · simp at h
    · refine ⟨before, after, hbefore, hafter, hplace, ?_⟩
      rw [Table.changesInPlace_eq] at h
      exact (by simpa using h : column ∈ gainedColumns before after ∧ after.name = name).1
  · rintro ⟨before, after, hbefore, hafter, hplace, hgained⟩
    rw [diffAt_of_changeable hbefore hafter hplace (ne_of_mem_gainedColumns hgained),
      Table.changesInPlace_eq, hdesired.ownName hafter]
    simp [hgained]

/-- A default that a difference adds in place is a literal, or else it is a text that looks like
one. A column that a table gains is added in place if the table can be changed in place, to which
its default is no obstacle in these two cases. With any other default the table is built anew, and
nothing else is done to it. -/
theorem defaults_of_added_columns {current desired : Realm} (hcurrent : current.WellFormed)
    (hdesired : desired.WellFormed) :
    (∀ name column text, SchemaChange.addColumn name column ∈ current.diff desired →
      column.default = some text →
        (Sql.Literal (Text.trimChars text.toList) ↔
          ¬Sql.Lookalike (Text.trimChars text.toList))) ∧
    ∀ name before after, current.tables.get? name = some before →
      desired.tables.get? name = some after → ∀ column ∈ gainedColumns before after,
        (SchemaChange.addColumn name column ∈ current.diff desired ↔ before.Changeable after) ∧
        ∀ text, column.default = some text →
          (needsValues column = false ↔ Sql.Literal (Text.trimChars text.toList) ∨
            Sql.Lookalike (Text.trimChars text.toList)) ∧
          (¬Sql.Literal (Text.trimChars text.toList) →
            ¬Sql.Lookalike (Text.trimChars text.toList) →
              ∀ step, step ∈ current.diff desired ∧ step.table = name ↔
                step = .rebuildTable before after (sharedColumns before after)) := by
  constructor
  · intro name column text hadded htext
    obtain ⟨before, after, -, -, hplace, hgained⟩ :=
      (addColumn_mem_diff_iff hcurrent hdesired).1 hadded
    have hconstant := (Table.needsValues_eq_false_iff htext).1 (hplace.addable column hgained)
    exact ⟨Sql.Literal.not_lookalike, hconstant.resolve_right⟩
  · intro name before after hbefore hafter column hgained
    refine ⟨?_, fun text htext => ⟨Table.needsValues_eq_false_iff htext, ?_⟩⟩
    · rw [addColumn_mem_diff_iff hcurrent hdesired]
      constructor
      · rintro ⟨before', after', hbefore', hafter', hplace, -⟩
        rw [hbefore] at hbefore'
        rw [hafter] at hafter'
        cases hbefore'
        cases hafter'
        exact hplace
      · exact fun hplace => ⟨before, after, hbefore, hafter, hplace, hgained⟩
    · intro hliteral hlookalike step
      have hplace : ¬before.Changeable after := fun hplace =>
        ((Table.needsValues_eq_false_iff htext).1 (hplace.addable column hgained)).elim
          hliteral hlookalike
      rw [← mem_diffAt_iff hcurrent hdesired,
        diffAt_of_not_changeable hbefore hafter hplace (ne_of_mem_gainedColumns hgained),
        List.mem_singleton]

/-- A column with a constant default, written with blanks around it. -/
def label : Column := ⟨"label", "TEXT", false, some " 'it''s' "⟩

/-- A column whose default looks like a blob. -/
def stamp : Column := ⟨"stamp", "BLOB", false, some "x'zz'"⟩

/-- A column whose default is an expression. -/
def made : Column := ⟨"made", "TEXT", false, some "CURRENT_TIMESTAMP"⟩

/-- A table of crates. -/
def crate : Table := ⟨"crate", [.ofType "id" "integer"], [], .empty⟩

/-- The table as it is wanted, with a default that no column in place can have. -/
def wantedCrate : Table := { crate with columns := crate.columns ++ [made] }

/-- A stock of bins and crates. -/
def stock : Realm where
  tables := .ofList [("bin", ⟨"bin", [.ofType "id" "integer"], [], .empty⟩), ("crate", crate)]

/-- The stock as it is wanted. -/
def wantedStock : Realm where
  tables := .ofList [
    ("bin", ⟨"bin", [.ofType "id" "integer", label, stamp], [], .empty⟩), ("crate", wantedCrate)]

theorem defaults_of_added_columns_stock : (stock.WellFormed ∧ wantedStock.WellFormed) ∧
    (SchemaChange.addColumn "bin" label ∈ stock.diff wantedStock ∧
      ¬Sql.Lookalike "'it''s'".toList) ∧
    (SchemaChange.addColumn "bin" stamp ∈ stock.diff wantedStock ∧
      ¬Sql.Literal "x'zz'".toList) ∧
    ∀ step, step ∈ stock.diff wantedStock ∧ step.table = "crate" ↔
      step = .rebuildTable crate wantedCrate ["id"] := by
  have hs : stock.WellFormed := by decide +kernel
  have hw : wantedStock.WellFormed := by decide +kernel
  obtain ⟨hadded, hgained⟩ := defaults_of_added_columns hs hw
  have hlabel : SchemaChange.addColumn "bin" label ∈ stock.diff wantedStock := by decide +kernel
  have hstamp : SchemaChange.addColumn "bin" stamp ∈ stock.diff wantedStock := by decide +kernel
  have hlike : Sql.Lookalike "x'zz'".toList := by
    refine @Sql.Lookalike.blob 'x' ['z', 'z'] (.inl rfl) fun hhex => ?_
    exact absurd (hhex.1 'z' List.mem_cons_self) (by decide)
  refine ⟨⟨hs, hw⟩, ⟨hlabel, (hadded "bin" label _ hlabel rfl).1 (.quoted "it's".toList)⟩,
    ⟨hstamp, fun hliteral => (hadded "bin" stamp _ hstamp rfl).1 hliteral hlike⟩, ?_⟩
  · have hmade := hgained "crate" crate wantedCrate (by decide +kernel) (by decide +kernel) made
      (by decide +kernel)
    obtain ⟨hvalues, hrebuilt⟩ := hmade.2 _ rfl
    have hneither := mt hvalues.2 (by decide +kernel)
    rw [not_or] at hneither
    exact hrebuilt hneither.1 hneither.2

end Realm

end ProjectHub
