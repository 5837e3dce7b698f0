import ProjectHub.Proofs.Document.Schema
import ProjectHub.Proofs.Run
import ProjectHub.Proofs.Sqlite.Default
import ProjectHub.Sqlite.Host

/-!
# What is read back of a declaration

A database tells a plain column as it was declared, but for the parentheses that
its default stands in, and a primary key as it was declared, but each of its
columns once.
-/

namespace ProjectHub

namespace Column

/-- The default that a database tells of a column with a default. -/
def readDefault (text : String) : String :=
  ((Sqlite.plainDefault? text).map Sqlite.Default.text).getD text

/-- The column that a database tells of a plain column. -/
def readBack (column : Column) : Column :=
  { column with default := column.default.map readDefault }

/-- Whether a column is read back as it was declared. -/
def ReadsBack (column : Column) : Prop :=
  ∀ text, column.default = some text → text.toList.head? ≠ some '('

@[simp] theorem name_readBack (column : Column) : column.readBack.name = column.name := rfl

end Column

namespace Table

/-- The table that a database tells of a table of plain columns. -/
def readBack (t : Table) : Table :=
  { t with columns := t.columns.map Column.readBack, primaryKey := t.primaryKey.eraseDups }

/-- Whether a table is read back as it was declared. -/
def ReadsBack (t : Table) : Prop :=
  t.primaryKey.Nodup ∧ ∀ column ∈ t.columns, column.ReadsBack

theorem nodup_eraseDups (names : List String) : names.eraseDups.Nodup := by
  induction hlength : names.length using Nat.strongRecOn generalizing names with
  | ind length ih =>
      cases names with
      | nil => simp
      | cons name rest =>
          rw [List.eraseDups_cons, List.nodup_cons]
          constructor
          · intro hmem
            have hother := (List.mem_filter.mp (List.mem_eraseDups.mp hmem)).2
            simp at hother
          · refine ih _ ?_ _ rfl
            have hle := List.length_filter_le (fun other => !other == name) rest
            rw [← hlength, List.length_cons]
            omega

theorem eraseDups_eq_self_iff {names : List String} : names.eraseDups = names ↔ names.Nodup := by
  constructor
  · intro hsame
    rw [← hsame]
    exact nodup_eraseDups names
  · intro hnodup
    induction names with
    | nil => rfl
    | cons name rest ih =>
        obtain ⟨hfirst, hrest⟩ := List.nodup_cons.mp hnodup
        have hfilter : (rest.filter fun other => !other == name) = rest := by
          refine List.filter_eq_self.mpr fun other hother => ?_
          have hne : other ≠ name := fun hsame => hfirst (hsame ▸ hother)
          simpa using hne
        rw [List.eraseDups_cons, hfilter, ih hrest]

end Table

namespace Sqlite

theorem plainType?_text {text : String} {type : TypeName} (h : plainType? text = some type) :
    type.text = text := by
  unfold plainType? at h
  split at h
  · split at h
    · cases h
      assumption
    · cases h
  · cases h

/-- The definition of a column with the type and the default that its texts are read as. -/
def ColumnDefinition.ofPlain (column : Column) (type : TypeName) (default : Option Default) :
    ColumnDefinition :=
  ⟨column.name, type, (if column.nullable then [] else [.notNull .refuse]) ++
    (default.map ColumnConstraint.default).toList⟩

/-- The column that such a definition gives. -/
def StoredColumn.ofPlain (column : Column) (type : TypeName) (default : Option Default) :
    StoredColumn where
  name := column.name
  type := type
  notNull := if column.nullable then none else some .refuse
  default := default

theorem exists_ofPlain {column : Column} {d : ColumnDefinition}
    (h : ColumnDefinition.ofColumn? column = some d) : ∃ type default,
      plainType? column.sqlType = some type ∧ column.default.map plainDefault? = default.map some ∧
        d = .ofPlain column type default := by
  simp only [ColumnDefinition.ofColumn?, bind, Option.bind_eq_some_iff] at h
  obtain ⟨type, htype, h⟩ := h
  cases hdefault : column.default with
  | none =>
      simp only [hdefault, pure, Option.some.injEq] at h
      exact ⟨type, none, htype, rfl, h.symm.trans (by simp [ColumnDefinition.ofPlain])⟩
  | some text =>
      simp only [hdefault, pure, Option.bind_eq_some_iff, Option.some.injEq] at h
      obtain ⟨value, hvalue, rfl⟩ := h
      exact ⟨type, some value, htype, congrArg some hvalue, rfl⟩

@[simp] theorem ofDefinition?_ofPlain (column : Column) (type : TypeName)
    (default : Option Default) : StoredColumn.ofDefinition? (.ofPlain column type default) =
      some (.ofPlain column type default) := by
  unfold ColumnDefinition.ofPlain StoredColumn.ofPlain
  cases column.nullable <;> cases default <;> rfl

/-- A column as the database stores it that was declared plain. -/
structure StoredColumn.IsOf (c : StoredColumn) (column : Column) : Prop where
  collation : c.collation = .binary
  generated : c.generated = none
  inspect : c.inspect = column.readBack

/-- The default of a plain column has the text that is read back of it. -/
theorem text_of_plainDefault? {column : Column} {default : Option Default}
    (h : column.default.map plainDefault? = default.map some) :
    default.map Default.text = column.default.map Column.readDefault := by
  cases default with
  | none =>
      rw [Option.map_eq_none_iff.mp h]
      rfl
  | some value =>
      obtain ⟨text, htext, hvalue⟩ := Option.map_eq_some_iff.mp h
      rw [htext]
      simp only [Option.map_some, Column.readDefault, hvalue, Option.getD_some]

theorem stored_of_ofColumn? {column : Column} {d : ColumnDefinition} (hnormal : column.IsNormal)
    (h : ColumnDefinition.ofColumn? column = some d) :
    ∃ c, StoredColumn.ofDefinition? d = some c ∧ c.IsOf column := by
  obtain ⟨type, default, htype, hdefault, rfl⟩ := exists_ofPlain h
  refine ⟨_, ofDefinition?_ofPlain column type default, rfl, rfl, ?_⟩
  have hsame : normalizeType type.text = column.sqlType := by rw [plainType?_text htype, hnormal]
  have hnull : (if column.nullable then none else some Resolution.refuse).isNone =
      column.nullable := by cases column.nullable <;> rfl
  simp only [StoredColumn.inspect, StoredColumn.ofPlain, Column.readBack, hsame, hnull,
    text_of_plainDefault? hdefault]

/-- A plain column is read back unchanged just if its default does not stand in parentheses. -/
theorem readBack_eq_self_iff {column : Column}
    (h : (ColumnDefinition.ofColumn? column).isSome = true) :
    column.readBack = column ↔ column.ReadsBack := by
  obtain ⟨d, hd⟩ := Option.isSome_iff_exists.mp h
  obtain ⟨type, default, -, hread, -⟩ := exists_ofPlain hd
  have hsame : column.readBack = column ↔
      column.default.map Column.readDefault = column.default :=
    ⟨fun heq => congrArg Column.default heq, fun heq => by rw [Column.readBack, heq]⟩
  rw [hsame]
  unfold Column.ReadsBack
  cases hdefault : column.default with
  | none => simp
  | some text =>
      rw [hdefault] at hread
      obtain ⟨value, -, hvalue⟩ := Option.map_eq_some_iff.mp hread.symm
      simp only [Option.map_some, Column.readDefault, ← hvalue, Option.getD_some,
        Option.some.injEq, forall_eq']
      exact text_plainDefault? hvalue.symm

/-- Plain columns of distinct names are read back up to their order just if each is unchanged. -/
theorem map_readBack_perm_iff {columns : List Column} (hdistinct : (columns.map Column.name).Nodup)
    (h : ∀ column ∈ columns, (ColumnDefinition.ofColumn? column).isSome = true) :
    (columns.map Column.readBack).Perm columns ↔ ∀ column ∈ columns, column.ReadsBack := by
  constructor
  · intro hperm column hcolumn
    have hmem : column.readBack ∈ columns := hperm.mem_iff.mp (List.mem_map_of_mem hcolumn)
    exact (readBack_eq_self_iff (h column hcolumn)).mp
      (List.inj_on_of_nodup_map hdistinct hmem hcolumn rfl)
  · intro hall
    have hsame : columns.map Column.readBack = columns :=
      (List.map_congr_left fun column hcolumn =>
        (readBack_eq_self_iff (h column hcolumn)).mpr (hall column hcolumn)).trans (List.map_id _)
    rw [hsame]

/-- What is read back of a table agrees with what was declared just if it is the same. -/
theorem readBack_agrees_iff {t : Table} (hdistinct : (t.columns.map Column.name).Nodup)
    (h : ∀ column ∈ t.columns, (ColumnDefinition.ofColumn? column).isSome = true) :
    t.readBack.Agrees t ↔ t.ReadsBack := by
  have hkey : t.primaryKey.eraseDups = t.primaryKey ↔ t.primaryKey.Nodup :=
    Table.eraseDups_eq_self_iff
  have hcolumns := map_readBack_perm_iff hdistinct h
  constructor
  · intro hagrees
    exact ⟨hkey.mp hagrees.primaryKey, hcolumns.mp hagrees.columns⟩
  · rintro ⟨hnodup, hall⟩
    exact ⟨rfl, hkey.mpr hnodup, rfl, hcolumns.mpr hall⟩

/-! ## Tables -/

theorem sameName_iff {a b : String} :
    sameName a b = true ↔ Text.lowerAscii a = Text.lowerAscii b := by
  simp [sameName, Text.sameAscii]

/-- A table as the database stores it that was declared with plain columns. -/
structure StoredTable.IsOf (t : StoredTable) (name : String) (shape : Table) : Prop where
  name : t.name = name
  /-- No two columns have one name in any case. -/
  distinct : (t.columns.map fun c => Text.lowerAscii c.name).Nodup
  plain : ∀ c ∈ t.columns, c.collation = .binary ∧ c.generated = none
  columns : t.columns.map StoredColumn.inspect = shape.columns.map Column.readBack
  key : t.primaryColumns = shape.primaryKey

theorem columns_of_ofColumn? {columns : List Column} {ds : List ColumnDefinition}
    (hnormal : ∀ column ∈ columns, column.IsNormal)
    (h : columns.mapM ColumnDefinition.ofColumn? = some ds) :
    ∃ cs, ds.mapM StoredColumn.ofDefinition? = some cs ∧
      (∀ c ∈ cs, c.collation = .binary ∧ c.generated = none) ∧
      cs.map StoredColumn.inspect = columns.map Column.readBack := by
  induction columns generalizing ds with
  | nil =>
      cases h
      exact ⟨[], rfl, by simp, rfl⟩
  | cons column columns ih =>
      simp only [List.mapM_cons, bind, Option.bind_eq_some_iff, pure, Option.some.injEq] at h
      obtain ⟨d, hd, rest, hrest, rfl⟩ := h
      obtain ⟨c, hc, hof⟩ := stored_of_ofColumn? (hnormal column List.mem_cons_self) hd
      obtain ⟨cs, hcs, hplain, hall⟩ :=
        ih (fun other hother => hnormal other (List.mem_cons_of_mem _ hother)) hrest
      refine ⟨c :: cs, ?_, ?_, ?_⟩
      · simp only [List.mapM_cons, hc, hcs, bind, Option.bind, pure]
      · intro other hother
        rcases List.mem_cons.mp hother with rfl | hother
        · exact ⟨hof.collation, hof.generated⟩
        · exact hplain other hother
      · rw [List.map_cons, List.map_cons, hof.inspect, hall]

/-- Where no two names are the same in any case, a column is found under its own name. -/
theorem find?_of_name {cs : List StoredColumn}
    (hdistinct : (cs.map fun c => Text.lowerAscii c.name).Nodup) {c : StoredColumn} (hc : c ∈ cs) :
    (cs.find? fun other => sameName other.name c.name) = some c := by
  cases hfound : cs.find? fun other => sameName other.name c.name with
  | none =>
      have hnot := List.find?_eq_none.mp hfound c hc
      exact absurd (sameName_iff.mpr rfl) hnot
  | some other =>
      have hsame : sameName other.name c.name = true := by simpa using List.find?_some hfound
      have hmem := List.mem_of_find?_eq_some hfound
      rw [List.inj_on_of_nodup_map hdistinct hmem hc (sameName_iff.mp hsame)]

theorem mapM_eq_map {α β : Type} {f : α → Option β} {g : α → β} {l : List α}
    (h : ∀ a ∈ l, f a = some (g a)) : l.mapM f = some (l.map g) := by
  induction l with
  | nil => rfl
  | cons a l ih =>
      have hrest := ih fun b hb => h b (List.mem_cons_of_mem _ hb)
      rw [List.mapM_cons, h a List.mem_cons_self, hrest]
      rfl

/-- The key on quoted names of plain columns. -/
theorem key?_of_names {cs : List StoredColumn}
    (hdistinct : (cs.map fun c => Text.lowerAscii c.name).Nodup)
    (hplain : ∀ c ∈ cs, c.collation = .binary ∧ c.generated = none) {names : List String}
    (hnames : ∀ name ∈ names, ∃ c ∈ cs, c.name = name) (r : KeyRequest)
    (hr : r.columns = names.map KeyColumn.ofName) :
    r.key? cs = some ⟨names.map fun name => (name, .binary), r.resolution, r.isPrimary, r.owner⟩ := by
  unfold KeyRequest.key?
  rw [hr, List.mapM_map, mapM_eq_map (g := fun name => (name, Collation.binary))]
  · rfl
  · intro name hname
    obtain ⟨c, hc, rfl⟩ := hnames name hname
    obtain ⟨hcollation, hgenerated⟩ := hplain c hc
    simp [KeyColumn.ofName, KeyRequest.column?, find?_of_name hdistinct hc, hcollation, hgenerated]

theorem StoredTable.names_withKeyColumns (t : StoredTable) :
    t.withKeyColumns.columns.map StoredColumn.name = t.columns.map StoredColumn.name := by
  simp only [StoredTable.withKeyColumns, List.map_map]
  apply List.map_congr_left
  intro c _
  simp only [Function.comp_apply]
  split <;> rfl

theorem StoredTable.distinct_withKeyColumns {t : StoredTable}
    (h : (t.columns.map fun c => Text.lowerAscii c.name).Nodup) :
    (t.withKeyColumns.columns.map fun c => Text.lowerAscii c.name).Nodup := by
  have hnames := congrArg (List.map Text.lowerAscii) (StoredTable.names_withKeyColumns t)
  rw [List.map_map, List.map_map, Function.comp_def] at hnames
  rw [hnames]
  exact h

/-! ## Tables from definitions -/

/-- The keys that a definition asks for. -/
def TableDefinition.requests (d : TableDefinition) : List KeyRequest :=
  d.columns.flatMap KeyRequest.ofColumn ++ d.constraints.filterMap KeyRequest.ofTable?

/-- The table of a definition with columns and keys that are made for it, before columns refuse
NULL for its options. -/
def StoredTable.assembled (name : String) (d : TableDefinition) (columns : List StoredColumn)
    (asked : List (KeyRequest × Key)) (keys : List Key) : StoredTable :=
  let number? := asked.findSome? fun entry => entry.1.rowNumber? columns entry.2
  { name := name
    columns := columns
    keys := (asked.map Prod.snd).filter (fun key => key.isPrimary && number?.isSome) ++ keys
    rowNumber := if d.withoutRowNumber then none else number?
    checks := Check.ofDefinition d
    foreignKeys := ForeignKey.ofColumns d.columns ++ d.constraints.filterMap ForeignKey.ofTable?
    withoutRowNumber := d.withoutRowNumber
    isStrict := d.isStrict }

/-- The table of a definition with columns that are made for it. -/
def StoredTable.ofColumns? (name : String) (d : TableDefinition) (columns : List StoredColumn) :
    Option StoredTable := do
  let asked ← d.requests.mapM fun r => (r.key? columns).map fun key => (r, key)
  let keys ← ((asked.map Prod.snd).filter fun key => !(key.isPrimary &&
    (asked.findSome? fun entry => entry.1.rowNumber? columns entry.2).isSome)).foldlM Key.add? []
  let t := StoredTable.assembled name d columns asked keys
  let primary := (d.requests.filter KeyRequest.isPrimary).length
  if !decide (columns.map fun c => Text.lowerAscii c.name).Nodup ||
      maxColumns < (columns.map fun c => Text.lowerAscii c.name).length || 1 < primary ||
      (d.requests.any KeyRequest.isOnce && t.rowNumber.isNone) ||
      (d.withoutRowNumber && primary == 0) || !t.isSound || t.hasLoop then none
  else some t.withKeyColumns

/-- How a definition gives a table: the columns and keys that are made for it, and all that a
table can be refused for. -/
structure StoredTable.MadeOf (name : String) (d : TableDefinition) (made columns : List StoredColumn)
    (asked : List (KeyRequest × Key)) (keys : List Key) (t : StoredTable) : Prop where
  columnsMade : d.columns.mapM StoredColumn.ofDefinition? = some made
  columnsTyped : (if d.isStrict then made.mapM StoredColumn.strict? else some made) = some columns
  keysAsked : d.requests.mapM (fun r => (r.key? columns).map fun key => (r, key)) = some asked
  keysJoined : ((asked.map Prod.snd).filter fun key => !(key.isPrimary &&
    (asked.findSome? fun entry => entry.1.rowNumber? columns entry.2).isSome)).foldlM Key.add? [] =
      some keys
  distinct : (columns.map fun c => Text.lowerAscii c.name).Nodup
  few : columns.length ≤ maxColumns
  single : (d.requests.filter KeyRequest.isPrimary).length ≤ 1
  once : d.requests.any KeyRequest.isOnce = true →
    (assembled name d columns asked keys).rowNumber.isSome = true
  keyed : d.withoutRowNumber = true → (d.requests.filter KeyRequest.isPrimary).length ≠ 0
  sound : (assembled name d columns asked keys).isSound = true
  loopFree : (assembled name d columns asked keys).hasLoop = false
  eq : (assembled name d columns asked keys).withKeyColumns = t

theorem ofDefinition?_eq_bind {name : String} {d : TableDefinition} :
    StoredTable.ofDefinition? name d = (d.columns.mapM StoredColumn.ofDefinition?).bind fun made =>
      (if d.isStrict then made.mapM StoredColumn.strict? else some made).bind
        (StoredTable.ofColumns? name d) := by
  obtain ⟨columns, constraints, withoutRowNumber, isStrict⟩ := d
  cases isStrict <;> rfl

theorem ofDefinition?_eq_some_iff {name : String} {d : TableDefinition} {t : StoredTable} :
    StoredTable.ofDefinition? name d = some t ↔
      ∃ made columns asked keys, StoredTable.MadeOf name d made columns asked keys t := by
  simp only [ofDefinition?_eq_bind, StoredTable.ofColumns?, bind, Option.bind_eq_some_iff,
    Option.ite_none_left_eq_some, List.length_map, Bool.or_eq_true, not_or, Bool.not_eq_true',
    decide_eq_false_iff_not, not_not, decide_eq_true_eq, not_lt, Bool.and_eq_true, not_and,
    Bool.not_eq_true, beq_iff_eq, Option.isNone_eq_false_iff, Bool.not_eq_false, Option.some.injEq]
  constructor
  · rintro ⟨made, hmade, columns, hcolumns, asked, hasked, keys, hkeys, hguards, ht⟩
    obtain ⟨⟨⟨⟨⟨⟨hdistinct, hfew⟩, hsingle⟩, honce⟩, hkeyed⟩, hsound⟩, hloop⟩ := hguards
    exact ⟨made, columns, asked, keys, hmade, hcolumns, hasked, hkeys, hdistinct, hfew, hsingle,
      honce, hkeyed, hsound, hloop, ht⟩
  · rintro ⟨made, columns, asked, keys, h⟩
    exact ⟨made, h.columnsMade, columns, h.columnsTyped, asked, h.keysAsked, keys, h.keysJoined,
      ⟨⟨⟨⟨⟨⟨h.distinct, h.few⟩, h.single⟩, h.once⟩, h.keyed⟩, h.sound⟩, h.loopFree⟩, h.eq⟩

/-- What a definition gives has the name that was asked for, and no two columns of one name. -/
theorem distinct_of_ofDefinition? {name : String} {d : TableDefinition} {t : StoredTable}
    (h : StoredTable.ofDefinition? name d = some t) :
    t.name = name ∧ (t.columns.map fun c => Text.lowerAscii c.name).Nodup := by
  obtain ⟨made, columns, asked, keys, hmade⟩ := ofDefinition?_eq_some_iff.mp h
  cases hmade.eq
  exact ⟨rfl, StoredTable.distinct_withKeyColumns hmade.distinct⟩

/-- A definition that asks for no key, no condition, no reference and no computed value. -/
structure ColumnDefinition.IsPlain (d : ColumnDefinition) : Prop where
  keys : KeyRequest.ofColumn d = []
  checks : ∀ owner, (d.constraints.filterMap fun
    | .check e => some (⟨e, owner⟩ : Check)
    | _ => none) = []
  foreignKeys : ForeignKey.ofColumns [d] = []
  generated : ∀ c, StoredColumn.ofDefinition? d = some c → c.generated = none

theorem isPlain_of_ofColumn? {column : Column} {d : ColumnDefinition}
    (h : ColumnDefinition.ofColumn? column = some d) : d.IsPlain := by
  obtain ⟨type, default, -, -, rfl⟩ := exists_ofPlain h
  refine ⟨?_, fun owner => ?_, ?_, fun c hc => ?_⟩
  · unfold ColumnDefinition.ofPlain
    cases column.nullable <;> cases default <;> rfl
  · unfold ColumnDefinition.ofPlain
    cases column.nullable <;> cases default <;> rfl
  · unfold ColumnDefinition.ofPlain
    cases column.nullable <;> cases default <;> rfl
  · rw [ofDefinition?_ofPlain] at hc
    cases hc
    rfl

theorem isPlain_of_mapM {columns : List Column} {ds : List ColumnDefinition}
    (h : columns.mapM ColumnDefinition.ofColumn? = some ds) : ∀ d ∈ ds, d.IsPlain := by
  intro d hd
  obtain ⟨column, -, hcolumn⟩ := exists_of_mem_mapM h hd
  exact isPlain_of_ofColumn? hcolumn

/-- The constraint that makes a key of names; none without names. -/
def keyConstraints (names : List String) : List TableConstraint :=
  if names.isEmpty then [] else [.primaryKey (names.map KeyColumn.ofName) false none]

theorem columns_of_ofTable? {shape : Table} {definition : TableDefinition}
    (h : TableDefinition.ofTable? shape = some definition) :
    ∃ ds, shape.columns.mapM ColumnDefinition.ofColumn? = some ds ∧
      definition = ⟨ds, keyConstraints shape.primaryKey, false, false⟩ := by
  by_cases hempty : shape.columns.isEmpty = true
  · simp [TableDefinition.ofTable?, hempty] at h
  · simp only [TableDefinition.ofTable?, hempty, Bool.false_eq_true, if_false, bind,
      Option.bind_eq_some_iff, pure, Option.some.injEq] at h
    obtain ⟨ds, hds, rfl⟩ := h
    exact ⟨ds, hds, rfl⟩

/-- The keys that a constraint on quoted names of plain columns makes: one on these names, or
none without names. -/
theorem primaryColumns_of_keyConstraints {cs : List StoredColumn}
    (hdistinct : (cs.map fun c => Text.lowerAscii c.name).Nodup)
    (hplain : ∀ c ∈ cs, c.collation = .binary ∧ c.generated = none) {names : List String}
    (hnames : ∀ name ∈ names, ∃ c ∈ cs, c.name = name) {asked : List (KeyRequest × Key)}
    (hasked : ((keyConstraints names).filterMap KeyRequest.ofTable?).mapM
      (fun r => (r.key? cs).map fun key => (r, key)) = some asked)
    (isNumbered : Bool) {keys : List Key}
    (hkeys : ((asked.map Prod.snd).filter fun key => !(key.isPrimary && isNumbered)).foldlM
      Key.add? [] = some keys) :
    ((((asked.map Prod.snd).filter fun key => key.isPrimary && isNumbered) ++ keys).find?
      Key.isPrimary).elim [] (fun key => key.columns.map Prod.fst) = names := by
  cases names with
  | nil =>
      cases hasked
      cases hkeys
      rfl
  | cons name names =>
      have hrequest : (keyConstraints (name :: names)).filterMap KeyRequest.ofTable? =
          [⟨(name :: names).map KeyColumn.ofName, none, true, false, true, none⟩] := rfl
      rw [hrequest, List.mapM_cons, key?_of_names hdistinct hplain hnames _ rfl] at hasked
      cases hasked
      cases isNumbered with
      | true =>
          cases hkeys
          simp [Function.comp_def]
      | false =>
          cases hkeys
          simp [Function.comp_def]

/-- How the definition of a shape gives a table: its columns are plain, and its key is the one key
that is made. -/
structure StoredTable.MadeOfShape (name : String) (shape : Table) (ds : List ColumnDefinition)
    (cs : List StoredColumn) (asked : List (KeyRequest × Key)) (keys : List Key)
    (t : StoredTable) : Prop where
  definitions : shape.columns.mapM ColumnDefinition.ofColumn? = some ds
  plain : ∀ d ∈ ds, d.IsPlain
  columns : ds.mapM StoredColumn.ofDefinition? = some cs
  keysAsked : ((keyConstraints shape.primaryKey).filterMap KeyRequest.ofTable?).mapM
    (fun r => (r.key? cs).map fun key => (r, key)) = some asked
  keysJoined : ((asked.map Prod.snd).filter fun key => !(key.isPrimary &&
    (asked.findSome? fun entry => entry.1.rowNumber? cs entry.2).isSome)).foldlM Key.add? [] =
      some keys
  distinct : (cs.map fun c => Text.lowerAscii c.name).Nodup
  eq : assembled name ⟨ds, keyConstraints shape.primaryKey, false, false⟩ cs asked keys = t

theorem requests_of_isPlain {ds : List ColumnDefinition} (h : ∀ d ∈ ds, d.IsPlain)
    (constraints : List TableConstraint) : TableDefinition.requests ⟨ds, constraints, false, false⟩ =
      constraints.filterMap KeyRequest.ofTable? := by
  rw [TableDefinition.requests, List.flatMap_eq_nil_iff.mpr fun d hd => (h d hd).keys,
    List.nil_append]

/-- Without options no column gets to refuse NULL. -/
theorem StoredTable.withKeyColumns_eq_self {t : StoredTable} (hrows : t.withoutRowNumber = false)
    (hstrict : t.isStrict = false) : t.withKeyColumns = t := by
  cases t
  cases hrows
  cases hstrict
  simp [StoredTable.withKeyColumns]

theorem exists_madeOfShape {shape : Table} {definition : TableDefinition} {name : String}
    {t : StoredTable} (h : TableDefinition.ofTable? shape = some definition)
    (ht : StoredTable.ofDefinition? name definition = some t) :
    ∃ ds cs asked keys, StoredTable.MadeOfShape name shape ds cs asked keys t := by
  obtain ⟨ds, hds, rfl⟩ := columns_of_ofTable? h
  obtain ⟨made, cs, asked, keys, hmade⟩ := ofDefinition?_eq_some_iff.mp ht
  cases hmade.columnsTyped
  have hplain := isPlain_of_mapM hds
  have hasked := hmade.keysAsked
  rw [requests_of_isPlain hplain] at hasked
  exact ⟨ds, made, asked, keys, hds, hplain, hmade.columnsMade, hasked, hmade.keysJoined,
    hmade.distinct, (StoredTable.withKeyColumns_eq_self rfl rfl).symm.trans hmade.eq⟩

/-- What a definition without options gives is the table of its columns. -/
theorem isOf_of_ofTable? {shape : Table} {definition : TableDefinition} {name : String}
    {t : StoredTable} (hwell : shape.WellFormed) (hnormal : ∀ column ∈ shape.columns, column.IsNormal)
    (h : TableDefinition.ofTable? shape = some definition)
    (ht : StoredTable.ofDefinition? name definition = some t) : t.IsOf name shape := by
  obtain ⟨ds, cs, asked, keys, hmade⟩ := exists_madeOfShape h ht
  obtain ⟨made, hcs, hplain, hall⟩ := columns_of_ofColumn? hnormal hmade.definitions
  obtain rfl : cs = made := Option.some.inj (hmade.columns.symm.trans hcs)
  cases hmade.eq
  have hnames : ∀ column ∈ shape.primaryKey, ∃ c ∈ cs, c.name = column := by
    intro name hname
    obtain ⟨column, hcolumn, rfl⟩ := Table.hasColumn_iff.mp (hwell.key name hname)
    have hmem : column.readBack ∈ cs.map StoredColumn.inspect :=
      hall ▸ List.mem_map_of_mem hcolumn
    obtain ⟨c, hc, hsame⟩ := List.mem_map.mp hmem
    exact ⟨c, hc, congrArg Column.name hsame⟩
  have hprimary := primaryColumns_of_keyConstraints hmade.distinct hplain hnames hmade.keysAsked _
    hmade.keysJoined
  refine ⟨rfl, hmade.distinct, hplain, hall, ?_⟩
  rw [← hprimary]
  simp only [StoredTable.primaryColumns, StoredTable.primaryKey?, StoredTable.assembled]
  generalize List.find? Key.isPrimary _ = found
  cases found <;> rfl

end Sqlite
end ProjectHub
