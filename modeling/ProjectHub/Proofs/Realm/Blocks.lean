import ProjectHub.Proofs.Realm.Difference

/-!
# The difference, table by table

The difference of two realms is made of one block for each table that is not the
same in both, in the order of the names. A block takes its table to the desired
shape at one go: the table comes or goes, it is built anew, or it is changed in
place. So nothing goes that is wanted, and a table that stays as it is is not
mentioned.
-/

namespace ProjectHub

/-- What a difference does to one table. -/
inductive TableChange where
  /-- The table comes. -/
  | add (after : Table)
  /-- The table goes. -/
  | drop
  /-- The table is built anew, and some of its columns keep their data. -/
  | rebuild (before after : Table) (copied : List String)
  /-- The table loses indexes and columns and then gains columns and indexes. -/
  | inPlace (lostIndexes lostColumns : List String) (gainedColumns : List Column)
      (gainedIndexes : List Index)
  deriving Inhabited

namespace TableChange

/-- The block of a change: its steps for the table of a name, in order. -/
def steps (name : String) : TableChange → List SchemaChange
  | add after => [.addTable after]
  | drop => [.dropTable name]
  | rebuild before after copied => [.rebuildTable before after copied]
  | inPlace lostIndexes lostColumns gainedColumns gainedIndexes =>
    lostIndexes.map (.dropIndex name) ++ lostColumns.map (.dropColumn name) ++
      gainedColumns.map (.addColumn name) ++ gainedIndexes.map (.addIndex name)

/-- The groups of a change in place: in each, what one shape has and the other has not, and
nothing twice. -/
structure Groups (before after : Table) (lostIndexes lostColumns : List String)
    (gainedColumns : List Column) (gainedIndexes : List Index) : Prop where
  mem_lostIndexes : ∀ name, name ∈ lostIndexes ↔
    ∃ i, before.indexes.get? name = some i ∧ after.indexes.get? name ≠ some i
  mem_lostColumns : ∀ name, name ∈ lostColumns ↔
    before.hasColumn name = true ∧ after.hasColumn name = false
  mem_gainedColumns : ∀ c, c ∈ gainedColumns ↔
    c ∈ after.columns ∧ before.hasColumn c.name = false
  mem_gainedIndexes : ∀ i, i ∈ gainedIndexes ↔
    after.indexes.get? i.name = some i ∧ before.indexes.get? i.name ≠ some i
  nodup_lostIndexes : lostIndexes.Nodup
  nodup_lostColumns : lostColumns.Nodup
  nodup_gainedColumns : (gainedColumns.map Column.name).Nodup
  nodup_gainedIndexes : (gainedIndexes.map Index.name).Nodup

/-- The change that takes a table from what a realm has under its name to what another has. -/
inductive Leads : Option Table → Option Table → TableChange → Prop where
  | add (after : Table) : Leads none (some after) (.add after)
  | drop (before : Table) : Leads (some before) none .drop
  /-- A table that cannot be changed in place is built anew. It keeps the data of the columns that
  both shapes have, in the order of the new one. -/
  | rebuild {before after : Table} {copied : List String} (hplace : ¬before.Changeable after)
      (horder : copied.Sublist (after.columns.map Column.name))
      (hshared : ∀ name, name ∈ copied ↔
        before.hasColumn name = true ∧ after.hasColumn name = true) :
      Leads (some before) (some after) (.rebuild before after copied)
  /-- There is nothing to do in place if the shapes differ only in the order of their columns. -/
  | inPlace {before after : Table} {lostIndexes lostColumns : List String}
      {gainedColumns : List Column} {gainedIndexes : List Index}
      (hplace : before.Changeable after)
      (hgroups : Groups before after lostIndexes lostColumns gainedColumns gainedIndexes)
      (hempty : (lostIndexes = [] ∧ lostColumns = [] ∧ gainedColumns = [] ∧ gainedIndexes = []) ↔
        before.Agrees after) :
      Leads (some before) (some after)
        (.inPlace lostIndexes lostColumns gainedColumns gainedIndexes)

end TableChange

/-- Whether a step gives up what a column of a table holds: it drops the column or the table, or
builds the table anew without it. -/
def SchemaChange.Discards (table column : String) : SchemaChange → Prop
  | dropTable name => name = table
  | dropColumn name dropped => name = table ∧ dropped = column
  | rebuildTable _ after copied => after.name = table ∧ column ∉ copied
  | _ => False

theorem SchemaChange.Discards.table_eq {table column : String} {step : SchemaChange}
    (h : step.Discards table column) : step.table = table := by
  cases step <;> simp_all [Discards, SchemaChange.table]

/-! ## The change of one table -/

open TableChange (Groups Leads)

namespace Table

variable {before after : Table}

theorem leads_rebuild (h : ¬before.Changeable after) :
    Leads (some before) (some after) (.rebuild before after (sharedColumns before after)) := by
  refine .rebuild h (List.filter_sublist.map _) fun name => ?_
  simp only [sharedColumns, List.mem_map, List.mem_filter]
  constructor
  · rintro ⟨c, ⟨hc, hbefore⟩, rfl⟩
    exact ⟨hbefore, hasColumn_iff.2 ⟨c, hc, rfl⟩⟩
  · rintro ⟨hbefore, hafter⟩
    obtain ⟨c, hc, rfl⟩ := hasColumn_iff.1 hafter
    exact ⟨c, ⟨hc, hbefore⟩, rfl⟩

theorem map_name_gainedIndexes (hafter : after.WellFormed) :
    ((gainedIndexes before after).map Prod.snd).map Index.name =
      (gainedIndexes before after).map Prod.fst := by
  rw [List.map_map]
  refine List.map_congr_left fun e he => ?_
  exact hafter.ownName (mem_gainedIndexes_iff.1 he).1

variable (hbefore : before.WellFormed) (hafter : after.WellFormed)
include hafter

theorem mem_map_gainedIndexes_iff {i : Index} :
    i ∈ (gainedIndexes before after).map Prod.snd ↔
      after.indexes.get? i.name = some i ∧ before.indexes.get? i.name ≠ some i := by
  rw [List.mem_map]
  constructor
  · rintro ⟨e, he, rfl⟩
    obtain ⟨hthere, hnew⟩ := mem_gainedIndexes_iff.1 he
    rw [hafter.ownName hthere]
    exact ⟨hthere, hnew⟩
  · intro hi
    exact ⟨(i.name, i), mem_gainedIndexes_iff.2 hi, rfl⟩

include hbefore

theorem groups_inPlace : Groups before after (lostIndexes before after) (lostColumns before after)
    (gainedColumns before after) ((gainedIndexes before after).map Prod.snd) where
  mem_lostIndexes _ := mem_lostIndexes_iff
  mem_lostColumns _ := mem_lostColumns_iff
  mem_gainedColumns _ := mem_gainedColumns_iff
  mem_gainedIndexes _ := mem_map_gainedIndexes_iff hafter
  nodup_lostIndexes := before.indexes.keys_nodup.sublist (List.filter_sublist.map _)
  nodup_lostColumns := hbefore.distinct.sublist (List.filter_sublist.map _)
  nodup_gainedColumns := hafter.distinct.sublist (List.filter_sublist.map _)
  nodup_gainedIndexes := by
    rw [map_name_gainedIndexes hafter]
    exact after.indexes.keys_nodup.sublist (List.filter_sublist.map _)

theorem leads_inPlace (hname : before.name = after.name) (h : before.Changeable after) :
    Leads (some before) (some after) (.inPlace (lostIndexes before after)
      (lostColumns before after) (gainedColumns before after)
      ((gainedIndexes before after).map Prod.snd)) := by
  refine .inPlace h (groups_inPlace hbefore hafter) ?_
  rw [← diff_eq_nil_iff hbefore.distinct hafter hname, diff]
  have hnil : changesInPlace before after = [] ↔ lostIndexes before after = [] ∧
      lostColumns before after = [] ∧ gainedColumns before after = [] ∧
        (gainedIndexes before after).map Prod.snd = [] := by
    simp only [changesInPlace_eq, List.append_eq_nil_iff, List.map_eq_nil_iff, and_assoc]
  rw [← hnil, needsRebuild_eq_false_iff.2 h]
  split
  · rename_i hsame
    subst hsame
    simp [changesInPlace_eq_nil_iff]
  · rfl

end Table

/-! ## What a change mentions and gives up -/

namespace TableChange.Leads

variable {change : TableChange} {name column : String}

/-- All steps of a change are steps for its table. -/
theorem table_eq {before after : Option Table} (h : Leads before after change)
    (hafter : ∀ t ∈ after, t.name = name) {step : SchemaChange} (hstep : step ∈ change.steps name) :
    step.table = name := by
  cases h with
  | add after =>
      rw [List.mem_singleton.1 hstep]
      exact hafter after rfl
  | drop before => rw [List.mem_singleton.1 hstep, SchemaChange.table]
  | rebuild =>
      rw [List.mem_singleton.1 hstep]
      exact hafter _ rfl
  | inPlace =>
      simp only [steps, List.mem_append, List.mem_map] at hstep
      obtain ((⟨_, -, rfl⟩ | ⟨_, -, rfl⟩) | ⟨_, -, rfl⟩) | ⟨_, -, rfl⟩ := hstep <;> rfl

/-- A table is dropped only by a change that leads to no table. -/
theorem dropTable_mem_iff {before after : Option Table} (h : Leads before after change) :
    SchemaChange.dropTable name ∈ change.steps name ↔ after = none := by
  cases h <;> simp [steps]

/-- The data of a column is given up just if the new shape, if there is one, lacks the column. -/
theorem discards_iff {before : Table} {after : Option Table} (h : Leads (some before) after change)
    (hafter : ∀ t ∈ after, t.name = name) (hcolumn : before.hasColumn column = true) :
    (∃ step ∈ change.steps name, step.Discards name column) ↔
      ∀ t ∈ after, t.hasColumn column = false := by
  cases h with
  | drop => simp [steps, SchemaChange.Discards]
  | rebuild hplace horder hshared =>
      have hname := hafter _ rfl
      simp [steps, SchemaChange.Discards, hname, hshared, hcolumn]
  | inPlace hplace hgroups hempty =>
      have hlost := hgroups.mem_lostColumns column
      simp only [hcolumn, true_and] at hlost
      simp only [Option.mem_def, Option.some.injEq, forall_eq', ← hlost]
      constructor
      · rintro ⟨step, hstep, hdiscards⟩
        simp only [steps, List.mem_append, List.mem_map] at hstep
        obtain ((⟨_, -, rfl⟩ | ⟨dropped, hmem, rfl⟩) | ⟨_, -, rfl⟩) | ⟨_, -, rfl⟩ := hstep
        · cases hdiscards
        · exact hdiscards.2 ▸ hmem
        · cases hdiscards
        · cases hdiscards
      · intro hmem
        refine ⟨.dropColumn name column, ?_, rfl, rfl⟩
        simp [steps, hmem]

end TableChange.Leads

/-! ## The blocks of all tables -/

namespace Realm

variable {current desired : Realm} {name : String}

theorem diffAt_eq_nil (h : current.tables.get? name = desired.tables.get? name) :
    current.diffAt desired name = [] := by
  unfold diffAt
  rw [h]
  cases desired.tables.get? name with
  | none => rfl
  | some t => simp [Table.diff]

/-- A table that is not the same in both realms is taken from one shape to the other by a block. -/
theorem exists_leads (hcurrent : current.WellFormed) (hdesired : desired.WellFormed)
    (hne : current.tables.get? name ≠ desired.tables.get? name) :
    ∃ change, Leads (current.tables.get? name) (desired.tables.get? name) change ∧
      current.diffAt desired name = change.steps name := by
  obtain ⟨hsame, -⟩ | ⟨after, hbefore, hafter, hat⟩ | ⟨before, hbefore, hafter, hat⟩ |
    ⟨before, after, hbefore, hafter, hat⟩ | ⟨before, after, hbefore, hafter, hplace, hat⟩ :=
    diffAt_cases current desired name
  · exact absurd hsame hne
  · rw [hat, hbefore, hafter]
    exact ⟨_, .add after, rfl⟩
  · rw [hat, hbefore, hafter]
    exact ⟨_, .drop before, rfl⟩
  · have hrebuilt : ¬before.Changeable after := by
      intro hplace
      simp only [diffAt, hbefore, hafter, Table.diff, Table.needsRebuild_eq_false_iff.2 hplace,
        Table.changesInPlace_eq] at hat
      split at hat
      · cases hat
      · have hmem := hat ▸ List.mem_singleton_self (SchemaChange.rebuildTable before after _)
        simp at hmem
    rw [hat, hbefore, hafter]
    exact ⟨_, Table.leads_rebuild hrebuilt, rfl⟩
  · have hown : before.name = after.name :=
      (hcurrent.ownName hbefore).trans (hdesired.ownName hafter).symm
    rw [hat, hbefore, hafter, Table.changesInPlace_eq, hdesired.ownName hafter]
    refine ⟨_, Table.leads_inPlace (hcurrent.tables hbefore) (hdesired.tables hafter) hown hplace,
      ?_⟩
    rw [TableChange.steps, List.map_map]
    rfl

/-- A difference in blocks, one for each table that is not the same in both realms, in the order of
the names. -/
structure Division (current desired : Realm) (blocks : List (String × TableChange)) : Prop where
  ordered : (blocks.map Prod.fst).Pairwise (· < ·)
  changed : ∀ name, name ∈ blocks.map Prod.fst ↔
    current.tables.get? name ≠ desired.tables.get? name
  leads : ∀ block ∈ blocks,
    Leads (current.tables.get? block.1) (desired.tables.get? block.1) block.2
  diff : current.diff desired = blocks.flatMap fun block => block.2.steps block.1

theorem exists_division (hcurrent : current.WellFormed) (hdesired : desired.WellFormed) :
    ∃ blocks, Division current desired blocks := by
  have hexists (name : String) (hne : current.tables.get? name ≠ desired.tables.get? name) :
      ∃ change, Leads (current.tables.get? name) (desired.tables.get? name) change ∧
        current.diffAt desired name = change.steps name := exists_leads hcurrent hdesired hne
  choose! change hleads hat using hexists
  let names := (current.tables.allKeys desired.tables).filter fun name =>
    decide (current.tables.get? name ≠ desired.tables.get? name)
  have hnames {name : String} :
      name ∈ names ↔ current.tables.get? name ≠ desired.tables.get? name := by
    rw [List.mem_filter, decide_eq_true_eq, and_iff_right_iff_imp, NameMap.mem_allKeys_iff]
    intro hne
    by_contra hnone
    simp_all
  have hfst : (names.map fun name => (name, change name)).map Prod.fst = names := by
    rw [List.map_map]
    exact List.map_id names
  refine ⟨names.map fun name => (name, change name), ?_, ?_, ?_, ?_⟩
  · rw [hfst]
    exact (NameMap.keys_pairwise _).filter _
  · intro name
    rw [hfst, hnames]
  · intro block hblock
    obtain ⟨name, hname, rfl⟩ := List.mem_map.1 hblock
    exact hleads name (hnames.1 hname)
  · -- a table that is the same in both adds nothing to the difference
    have hskip (l : List String) : l.flatMap (current.diffAt desired) =
        (l.filter fun name => decide (current.tables.get? name ≠ desired.tables.get? name)).flatMap
          (current.diffAt desired) := by
      induction l with
      | nil => rfl
      | cons name l ih =>
          by_cases h : current.tables.get? name = desired.tables.get? name
          · simp [h, diffAt_eq_nil h, ih]
          · simp [h, ih]
    rw [Realm.diff, hskip, List.flatMap_map]
    exact List.flatMap_congr fun name hname => hat name (hnames.1 hname)

section Division

variable {blocks : List (String × TableChange)} (h : Division current desired blocks)
include h

/-- Every step of a difference is one of the block of a table that is not the same in both. -/
theorem Division.exists_of_mem {step : SchemaChange} (hstep : step ∈ current.diff desired) :
    ∃ name change, current.tables.get? name ≠ desired.tables.get? name ∧
      Leads (current.tables.get? name) (desired.tables.get? name) change ∧
        step ∈ change.steps name := by
  rw [h.diff, List.mem_flatMap] at hstep
  obtain ⟨⟨name, change⟩, hblock, hstep⟩ := hstep
  exact ⟨name, change, (h.changed name).1 (List.mem_map_of_mem hblock), h.leads _ hblock, hstep⟩

/-- Every table that is not the same in both has its block. -/
theorem Division.exists_of_ne (hne : current.tables.get? name ≠ desired.tables.get? name) :
    ∃ change, Leads (current.tables.get? name) (desired.tables.get? name) change ∧
      ∀ step ∈ change.steps name, step ∈ current.diff desired := by
  obtain ⟨⟨name, change⟩, hblock, rfl⟩ := List.mem_map.1 ((h.changed name).2 hne)
  refine ⟨change, h.leads _ hblock, fun step hstep => ?_⟩
  rw [h.diff]
  exact List.mem_flatMap_of_mem hblock hstep

end Division

/-! ## What a difference gives up -/

section

variable (hcurrent : current.WellFormed) (hdesired : desired.WellFormed)
include hcurrent hdesired

/-- No step mentions a table that is the same in both realms. -/
theorem ne_of_mem_diff {step : SchemaChange} (hstep : step ∈ current.diff desired) :
    current.tables.get? step.table ≠ desired.tables.get? step.table := by
  obtain ⟨blocks, hblocks⟩ := exists_division hcurrent hdesired
  obtain ⟨name, change, hne, hleads, hmem⟩ := hblocks.exists_of_mem hstep
  rwa [hleads.table_eq (fun _ ht => hdesired.ownName ht) hmem]

theorem dropTable_mem_diff_iff {table : String} :
    SchemaChange.dropTable table ∈ current.diff desired ↔
      (∃ before, current.tables.get? table = some before) ∧ desired.tables.get? table = none := by
  obtain ⟨blocks, hblocks⟩ := exists_division hcurrent hdesired
  constructor
  · intro hstep
    obtain ⟨name, change, hne, hleads, hmem⟩ := hblocks.exists_of_mem hstep
    obtain rfl : table = name := hleads.table_eq (fun _ ht => hdesired.ownName ht) hmem
    have hnone := hleads.dropTable_mem_iff.1 hmem
    rw [hnone] at hne
    exact ⟨Option.ne_none_iff_exists'.1 hne, hnone⟩
  · rintro ⟨⟨before, hbefore⟩, hnone⟩
    have hne : current.tables.get? table ≠ desired.tables.get? table := by simp [hbefore, hnone]
    obtain ⟨change, hleads, hsteps⟩ := hblocks.exists_of_ne hne
    exact hsteps _ (hleads.dropTable_mem_iff.2 hnone)

/-- The data of a column is given up just if the desired realm does not have the column. -/
theorem discards_diff_iff {table column : String} {before : Table}
    (hbefore : current.tables.get? table = some before)
    (hcolumn : before.hasColumn column = true) :
    (∃ step ∈ current.diff desired, step.Discards table column) ↔
      ∀ after, desired.tables.get? table = some after → after.hasColumn column = false := by
  have hown : ∀ t ∈ desired.tables.get? table, t.name = table := fun _ ht => hdesired.ownName ht
  obtain ⟨blocks, hblocks⟩ := exists_division hcurrent hdesired
  constructor
  · rintro ⟨step, hstep, hdiscards⟩
    obtain ⟨name, change, hne, hleads, hmem⟩ := hblocks.exists_of_mem hstep
    have htable := hleads.table_eq (fun _ ht => hdesired.ownName ht) hmem
    obtain rfl : table = name := hdiscards.table_eq.symm.trans htable
    rw [hbefore] at hleads
    exact (hleads.discards_iff hown hcolumn).1 ⟨step, hmem, hdiscards⟩
  · intro hlacks
    have hne : current.tables.get? table ≠ desired.tables.get? table := by
      intro hsame
      rw [hlacks before (hsame ▸ hbefore)] at hcolumn
      cases hcolumn
    obtain ⟨change, hleads, hsteps⟩ := hblocks.exists_of_ne hne
    rw [hbefore] at hleads
    obtain ⟨step, hmem, hdiscards⟩ := (hleads.discards_iff hown hcolumn).2 hlacks
    exact ⟨step, hsteps step hmem, hdiscards⟩

/-- A difference is made of blocks, one for each table that is not the same in both realms. It drops
a table only if that is not desired and gives up the data of a column only with the column, and it
does not mention a table that stays as it is. -/
theorem diff_in_blocks :
    (∃ blocks, Division current desired blocks) ∧
    (∀ table, SchemaChange.dropTable table ∈ current.diff desired ↔
      (∃ before, current.tables.get? table = some before) ∧
        desired.tables.get? table = none) ∧
    (∀ table column before, current.tables.get? table = some before →
      before.hasColumn column = true →
        ((∃ step ∈ current.diff desired, step.Discards table column) ↔
          ∀ after, desired.tables.get? table = some after → after.hasColumn column = false)) ∧
    ∀ step ∈ current.diff desired,
      current.tables.get? step.table ≠ desired.tables.get? step.table :=
  ⟨exists_division hcurrent hdesired,
    fun _ => dropTable_mem_diff_iff hcurrent hdesired,
    fun _ _ _ hbefore hcolumn => discards_diff_iff hcurrent hdesired hbefore hcolumn,
    fun _ hstep => ne_of_mem_diff hcurrent hdesired hstep⟩

end

/-- A table of cities, with an index on their names. -/
def city : Table where
  name := "city"
  columns := [.ofType "id" "integer", .ofType "zip" "integer", .ofType "name" "text"]
  primaryKey := ["id"]
  indexes := .ofList [("city_name", ⟨"city_name", ["name"], false⟩)]

/-- The table as it is wanted: without a column and with another type. -/
def wantedCity : Table where
  name := "city"
  columns := [.ofType "name" "varchar(80)", .ofType "id" "integer"]
  primaryKey := ["id"]
  indexes := .empty

/-- A catalog with a table that goes, one whose types change, one that can be changed in place, one
whose columns change places and one that stays. -/
def catalog : Realm where
  tables := .ofList [
    ("band", ⟨"band", [.ofType "id" "integer"], [], .empty⟩),
    ("city", city),
    ("disc", ⟨"disc", [.ofType "id" "integer", .ofType "year" "integer"], ["id"],
      .ofList [("disc_year", ⟨"disc_year", ["year"], false⟩)]⟩),
    ("era", ⟨"era", [.ofType "id" "integer", .ofType "name" "text"], [], .empty⟩),
    ("fan", ⟨"fan", [.ofType "id" "integer"], [], .empty⟩)]

/-- The catalog as it is wanted, with a table that comes. -/
def wantedCatalog : Realm where
  tables := .ofList [
    ("album", ⟨"album", [.ofType "id" "integer"], [], .empty⟩),
    ("city", wantedCity),
    ("disc", ⟨"disc", [⟨"title", "TEXT", true, none⟩, .ofType "id" "integer"], ["id"],
      .ofList [("disc_title", ⟨"disc_title", ["title"], true⟩)]⟩),
    ("era", ⟨"era", [.ofType "name" "text", .ofType "id" "integer"], [], .empty⟩),
    ("fan", ⟨"fan", [.ofType "id" "integer"], [], .empty⟩)]

theorem diff_in_blocks_catalog : (catalog.WellFormed ∧ wantedCatalog.WellFormed) ∧
    (∃ blocks, Division catalog wantedCatalog blocks) ∧
    SchemaChange.dropTable "band" ∈ catalog.diff wantedCatalog ∧
    (∃ step ∈ catalog.diff wantedCatalog, step.Discards "city" "zip") ∧
    ¬(∃ step ∈ catalog.diff wantedCatalog, step.Discards "city" "name") ∧
    ∀ step ∈ catalog.diff wantedCatalog, step.table ≠ "fan" := by
  have hc : catalog.WellFormed := by decide +kernel
  have hw : wantedCatalog.WellFormed := by decide +kernel
  have hband : (catalog.tables.get? "band").isSome = true := by decide +kernel
  have hgone : wantedCatalog.tables.get? "band" = none := by decide +kernel
  have hcity : catalog.tables.get? "city" = some city := by decide +kernel
  have hwanted : wantedCatalog.tables.get? "city" = some wantedCity := by decide +kernel
  have hfan : catalog.tables.get? "fan" = wantedCatalog.tables.get? "fan" := by decide +kernel
  obtain ⟨hblocks, hdropped, hdiscarded, hmentioned⟩ := diff_in_blocks hc hw
  refine ⟨⟨hc, hw⟩, hblocks, (hdropped "band").2 ⟨Option.isSome_iff_exists.1 hband, hgone⟩, ?_, ?_,
    ?_⟩
  · refine (hdiscarded "city" "zip" city hcity (by decide +kernel)).2 fun after hafter => ?_
    rw [hwanted] at hafter
    cases hafter
    decide +kernel
  · rw [hdiscarded "city" "name" city hcity (by decide +kernel)]
    intro hlacks
    exact absurd (hlacks wantedCity hwanted) (by decide +kernel)
  · intro step hstep htable
    exact hmentioned step hstep (htable ▸ hfan)

example : catalog.diff wantedCatalog = [
    .addTable ⟨"album", [.ofType "id" "integer"], [], .empty⟩,
    .dropTable "band",
    .rebuildTable city wantedCity ["name", "id"],
    .dropIndex "disc" "disc_year", .dropColumn "disc" "year",
    .addColumn "disc" ⟨"title", "TEXT", true, none⟩,
    .addIndex "disc" ⟨"disc_title", ["title"], true⟩] := by
  decide +kernel

end Realm

end ProjectHub
