import ProjectHub.Proofs.Sqlite.Dropping
import ProjectHub.Proofs.Sqlite.Fitting

/-!
# Copying rows

Where all constraints of a table refuse, a row that is added comes after all
others, or the command fails. So a copy of rows adds one for each, in their order.
In a column whose type prefers the values that are copied, the copies have just
these.
-/

namespace ProjectHub.Sqlite

/-- A table none of whose constraints leaves a row out or has others deleted. -/
structure StoredTable.Refuses (t : StoredTable) : Prop where
  columns : ∀ c ∈ t.columns, ∀ r, c.notNull = some r → r = .refuse
  keys : ∀ key ∈ t.keys, ∀ r, key.resolution = some r → r = .refuse

theorem notNull_of_ofColumn? {column : Column} {d : ColumnDefinition} {c : StoredColumn}
    (h : ColumnDefinition.ofColumn? column = some d) (hc : StoredColumn.ofDefinition? d = some c)
    (r : Resolution) (hr : c.notNull = some r) : r = .refuse := by
  obtain ⟨type, default, -, -, rfl⟩ := exists_ofPlain h
  rw [ofDefinition?_ofPlain] at hc
  cases hc
  obtain ⟨-, hr⟩ := Option.ite_none_left_eq_some.mp hr
  exact (Option.some.inj hr).symm

theorem refuses_of_ofTable? {shape : Table} {definition : TableDefinition} {name : String}
    {t : StoredTable} (h : TableDefinition.ofTable? shape = some definition)
    (ht : StoredTable.ofDefinition? name definition = some t) : t.Refuses := by
  obtain ⟨ds, cs, asked, keys, hmade⟩ := exists_madeOfShape h ht
  cases hmade.eq
  refine ⟨fun c hc r hr => ?_, fun key hkey r hr => ?_⟩
  · obtain ⟨d, hd, hof⟩ := exists_of_mem_mapM hmade.columns hc
    obtain ⟨column, -, hcolumn⟩ := exists_of_mem_mapM hmade.definitions hd
    exact notNull_of_ofColumn? hcolumn hof r hr
  · rw [(primary_of_keyConstraints hmade.keysAsked _ hmade.keysJoined hkey).2] at hr
    cases hr

/-! ## New rows -/

namespace StoredTable

/-- The table with other rows. -/
def withRows (t : StoredTable) (rows : List Row) (last : Int) : StoredTable :=
  { t with rows := rows, lastNumber := last }

@[simp] theorem name_withRows (t : StoredTable) (rows : List Row) (last : Int) :
    (t.withRows rows last).name = t.name := rfl

@[simp] theorem bare_withRows (t : StoredTable) (rows : List Row) (last : Int) :
    (t.withRows rows last).bare = t.bare := rfl

/-- Whether a row is one that a table without computed columns and with these columns and keys gets
for given values. -/
def Takes (t : StoredTable) (given : List (String × Value)) (row : Row) : Prop :=
  ∃ seed, (∃ v : StoredTable, v.bare = t.bare ∧ v.newNumber? given = some row.number) ∧
    t.columns.mapM (t.newValue? seed row.number given) = some row.values

variable {t : StoredTable} {row : Row} {seed : Nat} {given : List (String × Value)}

theorem withComputed?_of_isPlain (ht : t.IsPlain) : t.withComputed? seed row = some row := by
  have hnone : (t.columns.filter fun c => c.generated.isSome) = [] :=
    List.filter_eq_nil_iff.mpr fun c hc => by simp [ht.columns c hc]
  rw [withComputed?, hnone]
  rfl

theorem withoutNulls_of_refuses (seed : Nat) (row : Row) (ht : t.Refuses) :
    t.withoutNulls seed row = .ok row ∨ t.withoutNulls seed row = .error .refuse := by
  unfold withoutNulls
  have hcolumns := ht.columns
  generalize t.columns = cs at hcolumns
  induction cs with
  | nil => exact .inl rfl
  | cons c cs ih =>
      obtain ⟨hc, hcs⟩ := List.forall_mem_cons.mp hcolumns
      rw [List.foldlM_cons]
      cases hnull : c.notNull with
      | none => exact ih hcs
      | some r =>
          cases hc r hnull
          simp only
          split
          · exact ih hcs
          · exact .inr rfl

/-- A new row of a table whose constraints refuse has the values that are stored for it. -/
theorem values_of_newRow (hplain : t.IsPlain) (ht : t.Refuses) (h : t.newRow seed given = .ok row) :
    t.newNumber? given = some row.number ∧
      t.columns.mapM (t.newValue? seed row.number given) = some row.values := by
  simp only [newRow] at h
  split at h
  · cases h
  · rename_i started hstarted
    simp only [bind, Option.bind_eq_some_iff, withComputed?_of_isPlain hplain,
      Option.some.injEq] at hstarted
    obtain ⟨number, hnumber, values, hvalues, rfl⟩ := hstarted
    obtain ⟨filled, hfilled, h⟩ := exists_of_bind_ok h
    rcases withoutNulls_of_refuses seed ⟨number, values⟩ ht with hrow | hrow
    · rw [hrow] at hfilled
      cases hfilled
      split at h
      · cases h
        refine ⟨hnumber, mapM_of_forall₂ ((forall₂_of_mapM hvalues).imp fun c v hpair => ?_).flip⟩
        obtain ⟨hc, hv⟩ := hpair
        rw [hplain.columns c hc] at hv
        exact hv
      · cases h
    · rw [hrow] at hfilled
      cases hfilled

theorem refuse_of_newRow (ht : t.Refuses) {r : Resolution} (h : t.newRow seed given = .error r) :
    r = .refuse := by
  simp only [newRow] at h
  split at h
  · cases h
    rfl
  · rename_i started _
    rcases withoutNulls_of_refuses seed started ht with hrow | hrow
    · rw [hrow] at h
      simp only [bind, Except.bind] at h
      split at h
      · cases h
      · cases h
        rfl
    · rw [hrow] at h
      cases h
      rfl

/-! ## Values of new rows -/

variable {c : StoredColumn}

/-- A row that has a value for each column has one for a column of the table. -/
theorem exists_value? {R : StoredColumn → Value → Prop} (ht : t.HasDistinctColumns)
    (hc : c ∈ t.columns) (h : List.Forall₂ R t.columns row.values) :
    ∃ v, t.value? row c.name = some v ∧ R c v := by
  obtain ⟨i, hi, hat⟩ := exists_position? ht hc
  obtain ⟨hlength, hall⟩ := List.forall₂_iff_get.mp h
  obtain ⟨hlt, hget⟩ := List.getElem?_eq_some_iff.mp hat
  have hrow : i < row.values.length := hlength ▸ hlt
  refine ⟨row.values[i], ?_, ?_⟩
  · rw [value?, hi, Option.bind_some, List.getElem?_eq_getElem hrow]
  · rw [← hget]
    exact hall i hlt hrow

theorem find?_of_unique {α : Type} {l : List α} {p : α → Bool} {x : α} (hx : x ∈ l)
    (hp : p x = true) (h : ∀ y ∈ l, p y = true → y = x) : l.find? p = some x := by
  cases hfound : l.find? p with
  | none => exact absurd hp (List.find?_eq_none.mp hfound x hx)
  | some y => rw [h y (List.mem_of_find?_eq_some hfound) (List.find?_some hfound)]

/-- The number of rows is held by one column alone. -/
theorem sameName_of_holdsNumber {a b : String} (ha : t.holdsNumber a = true)
    (hb : t.holdsNumber b = true) : sameName a b = true := by
  obtain ⟨n, hn, ha⟩ := holdsNumber_iff.mp ha
  obtain ⟨m, hm, hb⟩ := holdsNumber_iff.mp hb
  cases hn.symm.trans hm
  rw [← sameName_left ha]
  exact hb

section Given

variable {names : List String} {value : String → Value} (ht : t.HasDistinctColumns)
  (hnames : ∀ name ∈ names, ∃ d ∈ t.columns, d.name = name) (hc : c ∈ t.columns)
  (hgiven : c.name ∈ names)

include ht hnames hc

/-- Names that are given are those of columns, so only one of them is that of a column. -/
theorem eq_of_sameName_given {name : String} (hname : name ∈ names)
    (h : sameName name c.name = true) : name = c.name := by
  obtain ⟨d, hd, rfl⟩ := hnames name hname
  rw [eq_of_sameName ht hd hc h]

include hgiven

theorem find?_given : ((names.map fun name => (name, value name)).find? fun entry =>
    sameName entry.1 c.name) = some (c.name, value c.name) := by
  refine find?_of_unique (List.mem_map_of_mem hgiven) (sameName_self _) fun entry hentry h => ?_
  obtain ⟨name, hname, rfl⟩ := List.mem_map.mp hentry
  rw [eq_of_sameName_given ht hnames hc hname h]

/-- What is given for the column of the numbers is what is given for the number: no name that is
given stands for the number otherwise. -/
theorem find?_number_given (hholds : t.holdsNumber c.name = true) :
    ((names.map fun name => (name, value name)).reverse.find? fun entry =>
      t.holdsNumber entry.1 || t.isNumber entry.1) = some (c.name, value c.name) := by
  refine find?_of_unique (List.mem_reverse.mpr (List.mem_map_of_mem hgiven)) (by simp [hholds]) ?_
  intro entry hentry h
  obtain ⟨name, hname, rfl⟩ := List.mem_map.mp (List.mem_reverse.mp hentry)
  obtain ⟨d, hd, hdname⟩ := hnames name hname
  have hcolumn : t.hasColumn name = true := by
    rw [hasColumn, ← hdname, column?, find?_of_name ht hd]
    rfl
  have hnumbered : t.holdsNumber name = true := by simpa [isNumber, hcolumn] using h
  rw [eq_of_sameName_given ht hnames hc hname (sameName_of_holdsNumber hnumbered hholds)]

/-- The number of a new row is what is given for the column that holds it, if that is a number. -/
theorem integer_of_newNumber? {v : StoredTable} (hbare : v.bare = t.bare)
    (hrows : t.withoutRowNumber = false) (hholds : t.holdsNumber c.name = true)
    (hnull : value c.name ≠ .null)
    (hstore : Affinity.integer.store (value c.name) = value c.name) {n : Int}
    (h : v.newNumber? (names.map fun name => (name, value name)) = some n) :
    value c.name = .integer n := by
  have hrows' : v.withoutRowNumber = false := (congrArg StoredTable.withoutRowNumber hbare).trans hrows
  have hholds' : v.holdsNumber = t.holdsNumber := by
    show v.bare.holdsNumber = t.bare.holdsNumber
    rw [hbare]
  have hisNumber : v.isNumber = t.isNumber := by
    show v.bare.isNumber = t.bare.isNumber
    rw [hbare]
  have hnumeric : Affinity.numeric.store (value c.name) = value c.name := hstore
  rw [newNumber?, hrows', if_neg Bool.false_ne_true, hholds', hisNumber,
    find?_number_given ht hnames hc hgiven hholds] at h
  simp only [beq_iff_eq, if_neg hnull, numberOf?, hnumeric] at h
  split at h
  · rename_i hvalue
    cases h
    exact hvalue
  · cases h

end Given

/-- A new row has the value that is given for a column that stores it as it is, unless that is NULL
and to be the number of the row. -/
theorem Takes.valueOf {names : List String} {value : String → Value}
    (h : t.Takes (names.map fun name => (name, value name)) row) (ht : t.HasDistinctColumns)
    (hnamed : t.IsNamed) (hrows : t.withoutRowNumber = false)
    (hnames : ∀ name ∈ names, ∃ d ∈ t.columns, d.name = name) (hc : c ∈ t.columns)
    (hgiven : c.name ∈ names) (hstore : c.type.affinity.store (value c.name) = value c.name)
    (hnull : t.holdsNumber c.name = true → value c.name ≠ .null) :
    t.valueOf row c.name = value c.name := by
  obtain ⟨seed, ⟨v, hbare, hnumber⟩, hvalues⟩ := h
  obtain ⟨w, hw, -, hnew⟩ := exists_value? ht hc (forall₂_of_mapM hvalues)
  rw [StoredTable.valueOf, hw, Option.getD_some]
  unfold newValue? at hnew
  split at hnew
  · rename_i hholds
    cases hnew
    rw [hnamed.integer ht hc hholds] at hstore
    exact (integer_of_newNumber? ht hnames hc hgiven hbare hrows hholds (hnull hholds) hstore
      hnumber).symm
  · rw [find?_given ht hnames hc hgiven] at hnew
    cases hnew
    exact hstore

end StoredTable

namespace Database

variable {db next : Database} {t : StoredTable} {name : String} {row : Row}

theorem placeRow?_eq {parts : List (Resolution × (Row → Option (List Value)))}
    (hparts : ∀ part ∈ parts, part.1 = .refuse) (h : db.placeRow? t row parts = some next) :
    next = db.setTable (t.withRows (t.rows ++ [row]) (max t.lastNumber row.number)) := by
  induction parts with
  | nil =>
      simp only [placeRow?] at h
      split at h
      · exact (Option.some.inj h).symm
      · cases h
  | cons part parts ih =>
      obtain ⟨hfirst, hrest⟩ := List.forall_mem_cons.mp hparts
      obtain ⟨r, key⟩ := part
      cases hfirst
      simp only [placeRow?] at h
      split at h
      all_goals
        split at h
        · exact ih hrest h
        · cases h

theorem refuse_of_uniqueParts (ht : t.Refuses) {seed : Nat} :
    ∀ part ∈ db.uniqueParts t seed, part.1 = .refuse := by
  have hkey {key : Key} (hkey : key ∈ t.keys) : key.resolution.getD .refuse = .refuse := by
    cases hr : key.resolution with
    | none => rfl
    | some r => exact ht.keys key hkey r hr
  have hprimary : ((t.primaryKey?.bind Key.resolution).getD .refuse : Resolution) = .refuse := by
    cases hfound : t.primaryKey? with
    | none => rfl
    | some key => exact hkey (List.mem_of_find?_eq_some hfound)
  have hall {parts : List (Resolution × (Row → Option (List Value)))}
      (h : ∀ part ∈ parts, part.1 = .refuse) :
      ∀ part ∈ (parts.filter fun part => part.1 != .replace) ++
          parts.filter fun part => part.1 == .replace,
        part.1 = .refuse := by
    intro part hpart
    rcases List.mem_append.mp hpart with hpart | hpart
    · exact h part (List.mem_of_mem_filter hpart)
    · exact h part (List.mem_of_mem_filter hpart)
  refine hall fun part hpart => ?_
  simp only [List.mem_append, List.mem_reverse, List.mem_map] at hpart
  rcases hpart with (hnumber | ⟨i, -, rfl⟩) | ⟨key, hmem, rfl⟩
  · split at hnumber
    · cases hnumber
    · rw [List.mem_singleton.mp hnumber]
      simp only [hprimary, ite_self]
  · rfl
  · exact hkey hmem

theorem setTable_setTable {a b : StoredTable} (h : a.name = b.name) :
    (db.setTable a).setTable b = db.setTable b := by
  have htables : ((db.setTable a).setTable b).tables = (db.setTable b).tables := by
    simp only [setTable, List.map_map]
    refine List.map_congr_left fun u _ => ?_
    simp only [Function.comp_apply, ← h]
    split
    · rw [sameName_self, if_pos rfl]
    · rfl
  exact congrArg (fun tables => { db with tables := tables }) htables

theorem setTable_self (hdb : db.HasDistinctTables) (ht : t ∈ db.tables) : db.setTable t = db := by
  have htables : (db.tables.map fun u => if sameName u.name t.name then t else u) = db.tables := by
    refine (List.map_congr_left fun u hu => ?_).trans (List.map_id _)
    split
    · rename_i hname
      exact (eq_of_sameName hdb hu ht hname).symm
    · rfl
  rw [setTable, htables]

/-- A row that is inserted comes after the rows there are. -/
theorem insertRow?_eq {given : List (String × Value)} (ht : db.table? name = some t)
    (hplain : t.IsPlain) (hrefuses : t.Refuses) (h : db.insertRow? name given = some next) :
    ∃ row, t.Takes given row ∧ next = ({ db with drawn := db.drawn + 1 } : Database).setTable
      (t.withRows (t.rows ++ [row]) (max t.lastNumber row.number)) := by
  simp only [insertRow?, ht, bind, Option.bind_some] at h
  split at h
  · cases h
  · rename_i r hr hrow
    exact absurd (StoredTable.refuse_of_newRow hrefuses hrow) hr
  · rename_i row hrow
    split at h
    · cases h
    · obtain ⟨hnumber, hvalues⟩ := StoredTable.values_of_newRow hplain hrefuses hrow
      exact ⟨row, ⟨_, ⟨t, rfl, hnumber⟩, hvalues⟩, placeRow?_eq (refuse_of_uniqueParts hrefuses) h⟩

/-- Rows that are inserted come after the rows there are, in their order. -/
theorem foldlM_insertRow?_eq {givens : List (List (String × Value))} (hdb : db.HasDistinctTables)
    (ht : db.table? name = some t) (hplain : t.IsPlain) (hrefuses : t.Refuses)
    (h : givens.foldlM (fun db given => db.insertRow? name given) db = some next) :
    ∃ rows last, List.Forall₂ t.Takes givens rows ∧
      next.tables = (db.setTable (t.withRows (t.rows ++ rows) last)).tables ∧
      next.indexes = db.indexes := by
  induction givens generalizing db t with
  | nil =>
      cases h
      refine ⟨[], t.lastNumber, .nil, ?_, rfl⟩
      rw [List.append_nil]
      exact (congrArg Database.tables (setTable_self hdb (sameName_of_table? ht).1)).symm
  | cons given givens ih =>
      rw [List.foldlM_cons] at h
      obtain ⟨middle, hfirst, hrest⟩ := Option.bind_eq_some_iff.mp h
      have hsame := sameSchema_insertRow? hdb hfirst
      obtain ⟨row, htakes, rfl⟩ := insertRow?_eq ht hplain hrefuses hfirst
      obtain ⟨rows, last, hall, htables, hindexes⟩ := ih
        (t := t.withRows (t.rows ++ [row]) (max t.lastNumber row.number))
        (hasDistinctTables_of_sameSchema hsame hdb)
        (by
          rw [table?_setTable]
          show (db.table? name).map _ = _
          rw [ht, Option.map_some, StoredTable.name_withRows, (sameName_of_table? ht).2, if_pos rfl])
        ⟨hplain.columns, hplain.keys, hplain.checks, hplain.foreignKeys⟩
        ⟨hrefuses.columns, hrefuses.keys⟩ hrest
      refine ⟨row :: rows, last, .cons htakes hall, ?_, hindexes⟩
      rw [htables, setTable_setTable (by rfl)]
      show (db.setTable (t.withRows ((t.rows ++ [row]) ++ rows) last)).tables = _
      rw [List.append_assoc, List.singleton_append]

/-- The copies of rows come after the rows there are, in their order. -/
theorem copyRows?_eq {source : String} {s : StoredTable} {columns : List String}
    (hdb : db.HasDistinctTables) (ht : db.table? name = some t) (hs : db.table? source = some s)
    (hplain : t.IsPlain) (hrefuses : t.Refuses) (h : db.copyRows? name source columns = some next) :
    ∃ rows last, List.Forall₂ (fun old row =>
        t.Takes (columns.map fun column => (column, quotedValue s old column)) row) s.rows rows ∧
      next.tables = (db.setTable (t.withRows (t.rows ++ rows) last)).tables ∧
      next.indexes = db.indexes := by
  simp only [copyRows?, ht, hs, bind, Option.bind_some] at h
  split at h
  · cases h
  · rw [← List.foldlM_map (f := fun old => columns.map fun column => (column, quotedValue s old column))
      (g := fun db given => insertRow? db name given)] at h
    obtain ⟨rows, last, hall, hnext⟩ := foldlM_insertRow?_eq hdb ht hplain hrefuses h
    exact ⟨rows, last, List.forall₂_map_left_iff.mp hall, hnext⟩

end Database

end ProjectHub.Sqlite
