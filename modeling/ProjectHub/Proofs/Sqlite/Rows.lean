import ProjectHub.Proofs.Sqlite.Declaration

/-!
# What rows leave alone

Rows come and go without a change to the schema: tables keep their names,
columns, keys and references, and indexes stay as they are. A deletion that
leads to others and an insertion that has rows deleted are no exceptions.
-/

namespace ProjectHub.Sqlite

/-- What every step of a fold keeps, the fold keeps. -/
theorem foldlM_some_of_step {α σ : Type} {f : σ → α → Option σ} {P : σ → Prop} {l : List α}
    (hstep : ∀ s, ∀ a ∈ l, ∀ s', P s → f s a = some s' → P s') {s s' : σ} (hs : P s)
    (h : l.foldlM f s = some s') : P s' := by
  induction l generalizing s with
  | nil =>
      cases h
      exact hs
  | cons a l ih =>
      rw [List.foldlM_cons] at h
      obtain ⟨next, hfirst, hrest⟩ := Option.bind_eq_some_iff.mp h
      exact ih (fun s b hb => hstep s b (List.mem_cons_of_mem _ hb))
        (hstep s a List.mem_cons_self next hs hfirst) hrest

/-- The table without its rows and their numbers. -/
def StoredTable.bare (t : StoredTable) : StoredTable :=
  { t with rows := [], lastNumber := 0 }

namespace Database

/-- Whether two databases have the same tables and indexes, rows aside. -/
structure SameSchema (a b : Database) : Prop where
  tables : a.tables.map StoredTable.bare = b.tables.map StoredTable.bare
  indexes : a.indexes = b.indexes

namespace SameSchema

variable {a b c : Database}

theorem refl (a : Database) : a.SameSchema a := ⟨rfl, rfl⟩

theorem symm (h : a.SameSchema b) : b.SameSchema a := ⟨h.tables.symm, h.indexes.symm⟩

theorem trans (h₁ : a.SameSchema b) (h₂ : b.SameSchema c) : a.SameSchema c :=
  ⟨h₁.tables.trans h₂.tables, h₁.indexes.trans h₂.indexes⟩

end SameSchema

/-- Whether no two tables have one name in any case. -/
def HasDistinctTables (db : Database) : Prop :=
  (db.tables.map fun t => Text.lowerAscii t.name).Nodup

theorem hasDistinctTables_of_sameSchema {a b : Database} (h : a.SameSchema b)
    (hb : b.HasDistinctTables) : a.HasDistinctTables := by
  have hnames (db : Database) : (db.tables.map fun t => Text.lowerAscii t.name) =
      (db.tables.map StoredTable.bare).map fun t => Text.lowerAscii t.name := by
    rw [List.map_map]
    rfl
  unfold HasDistinctTables
  rw [hnames, h.tables, ← hnames]
  exact hb

/-- Another table of a database that has the same name in some case is the same table. -/
theorem eq_of_sameName {db : Database} (h : db.HasDistinctTables) {t u : StoredTable}
    (ht : t ∈ db.tables) (hu : u ∈ db.tables) (hname : sameName t.name u.name = true) : t = u :=
  List.inj_on_of_nodup_map h ht hu (sameName_iff.mp hname)

/-- Whether a table is in a database, its rows aside. -/
def Has (db : Database) (t : StoredTable) : Prop :=
  ∃ u ∈ db.tables, u.bare = t.bare

theorem has_of_table? {db : Database} {name : String} {t : StoredTable}
    (h : db.table? name = some t) : db.Has t :=
  ⟨t, List.mem_of_find?_eq_some h, rfl⟩

theorem has_of_bare {db : Database} {t u : StoredTable} (hbare : t.bare = u.bare) (ht : db.Has t) :
    db.Has u := by
  obtain ⟨v, hv, hsame⟩ := ht
  exact ⟨v, hv, hsame.trans hbare⟩

theorem has_of_sameSchema {a b : Database} (h : a.SameSchema b) {t : StoredTable} (hb : b.Has t) :
    a.Has t := by
  obtain ⟨u, hu, hbare⟩ := hb
  have hmem : t.bare ∈ a.tables.map StoredTable.bare := by
    rw [h.tables, ← hbare]
    exact List.mem_map_of_mem hu
  obtain ⟨v, hv, hsame⟩ := List.mem_map.mp hmem
  exact ⟨v, hv, hsame⟩

/-- A table in place of itself with other rows. -/
theorem sameSchema_setTable {db : Database} (hdb : db.HasDistinctTables) {t : StoredTable}
    (ht : db.Has t) : (db.setTable t).SameSchema db := by
  obtain ⟨u, hu, hbare⟩ := ht
  refine ⟨?_, rfl⟩
  simp only [setTable, List.map_map]
  refine List.map_congr_left fun v hv => ?_
  simp only [Function.comp_apply]
  split
  · rename_i hname
    have hown : u.name = t.name := by
      show u.bare.name = t.bare.name
      rw [hbare]
    rw [← hbare, eq_of_sameName hdb hv hu (hown ▸ hname)]
  · rfl

theorem bare_of_release? {t next : StoredTable} {f : ForeignKey} {rows : List Row}
    {value : StoredColumn → Value} (h : release? t f rows value = some next) :
    next.bare = t.bare := by
  simp only [release?, Option.ite_none_left_eq_some, Option.some.injEq] at h
  rw [← h.2]
  rfl

/-- What a reference to rows that are gone has done to a database: nothing, or what its action asks
of the table that refers to them. -/
inductive Follows (steps : Nat) (s : Database) (name : String) (f : ForeignKey) : Database → Prop
  | leave : Follows steps s name f s
  | cascade {child : StoredTable} {rows : List Row} {next : Database}
      (found : s.table? name = some child) (acts : f.reference.deletion ≠ .refuse)
      (deleted : deleteRows? steps s name rows = some next) : Follows steps s name f next
  | release {child left : StoredTable} {rows : List Row} {value : StoredColumn → Value}
      (found : s.table? name = some child) (acts : f.reference.deletion ≠ .refuse)
      (value_eq : value = (fun _ => .null) ∨ value = literalDefault)
      (released : release? child f rows value = some left) : Follows steps s name f (s.setTable left)

/-- A deletion takes the rows from their table and then follows the references to it, one after the
other: what holds without the rows, and is kept by each of these, holds after it. -/
theorem deleteRows?_steps {steps : Nat} {db next : Database} {table : String} {gone : List Row}
    (h : deleteRows? (steps + 1) db table gone = some next) :
    ∃ t, db.table? table = some t ∧ ∀ P : Database → Prop,
      P (db.setTable { t with rows := t.rows.filter fun row => !gone.contains row }) →
      (∀ s name f s', (name, f) ∈ db.referencesTo t.name → P s → Follows steps s name f s' → P s') →
      P next := by
  simp only [deleteRows?, bind, Option.bind_eq_some_iff] at h
  obtain ⟨t, ht, h⟩ := h
  refine ⟨t, ht, fun P hleft hkept => foldlM_some_of_step ?_ hleft h⟩
  rintro s ⟨name, f⟩ href s' hs hstep
  refine hkept s name f s' href hs ?_
  simp only at hstep
  split at hstep
  · rename_i child columns found hkey
    split at hstep
    · cases hstep
      exact .leave
    · split at hstep
      · split at hstep
        · cases hstep
          exact .leave
        · cases hstep
      · rename_i hcascade
        exact .cascade found (by simp [hcascade]) hstep
      · rename_i hnull
        obtain ⟨left, hleft, rfl⟩ := Option.map_eq_some_iff.mp hstep
        exact .release found (by simp [hnull]) (.inl rfl) hleft
      · rename_i hdefault
        obtain ⟨left, hleft, hstep⟩ := Option.bind_eq_some_iff.mp hstep
        split at hstep
        · cases hstep
          exact .release found (by simp [hdefault]) (.inr rfl) hleft
        · cases hstep
  · cases hstep
    exact .leave

theorem exists_table?_of_withoutRows? {db next : Database} {table : String} {gone : List Row}
    (h : db.withoutRows? table gone = some next) : ∃ t, db.table? table = some t :=
  (deleteRows?_steps h).imp fun _ ht => ht.1

theorem sameSchema_deleteRows? {steps : Nat} {db next : Database} {table : String} {gone : List Row}
    (hdb : db.HasDistinctTables) (h : deleteRows? steps db table gone = some next) :
    next.SameSchema db := by
  induction steps generalizing db next table gone with
  | zero => cases h
  | succ steps ih =>
      obtain ⟨t, ht, hsteps⟩ := deleteRows?_steps h
      refine hsteps (fun s => s.SameSchema db)
        (sameSchema_setTable hdb (has_of_bare (t := t) rfl (has_of_table? ht))) ?_
      rintro s name f s' - hs hfollows
      have hdistinct := hasDistinctTables_of_sameSchema hs hdb
      cases hfollows with
      | leave => exact hs
      | cascade _ _ deleted => exact (ih hdistinct deleted).trans hs
      | release found _ _ released =>
          exact (sameSchema_setTable hdistinct
            (has_of_bare (bare_of_release? released).symm (has_of_table? found))).trans hs

theorem sameSchema_withoutRows? {db next : Database} {table : String} {gone : List Row}
    (hdb : db.HasDistinctTables) (h : db.withoutRows? table gone = some next) :
    next.SameSchema db :=
  sameSchema_deleteRows? hdb h

theorem sameSchema_placeRow? {db next : Database} {t : StoredTable} {row : Row}
    {parts : List (Resolution × (Row → Option (List Value)))} (hdb : db.HasDistinctTables)
    (ht : db.Has t) (h : db.placeRow? t row parts = some next) : next.SameSchema db := by
  induction parts generalizing db t with
  | nil =>
      simp only [placeRow?] at h
      split at h
      · cases h
        exact sameSchema_setTable hdb (has_of_bare rfl ht)
      · cases h
  | cons part parts ih =>
      obtain ⟨r, key⟩ := part
      simp only [placeRow?] at h
      split at h
      all_goals
        split at h
        · exact ih hdb ht h
        · split at h
          · cases h
          · cases h
            exact .refl _
          · simp only [bind, Option.bind_eq_some_iff] at h
            obtain ⟨left, hleft, t', ht', h⟩ := h
            have hsame := sameSchema_withoutRows? hdb hleft
            exact (ih (hasDistinctTables_of_sameSchema hsame hdb) (has_of_table? ht') h).trans hsame

theorem sameSchema_insertRow? {db next : Database} {table : String} {given : List (String × Value)}
    (hdb : db.HasDistinctTables) (h : db.insertRow? table given = some next) :
    next.SameSchema db := by
  simp only [insertRow?, bind, Option.bind_eq_some_iff] at h
  obtain ⟨t, ht, h⟩ := h
  have hdrawn : ({ db with drawn := db.drawn + 1 } : Database).SameSchema db := ⟨rfl, rfl⟩
  split at h
  · cases h
  · cases h
    exact hdrawn
  · split at h
    · cases h
    · have hplaced := @sameSchema_placeRow? { db with drawn := db.drawn + 1 } next t _ _ hdb
        (has_of_table? ht) h
      exact hplaced.trans hdrawn

theorem sameSchema_insert? {db next : Database} {table : String} {columns : Option (List String)}
    {rows : List (List Expr)} (hdb : db.HasDistinctTables)
    (h : db.insert? table columns rows = some next) : next.SameSchema db := by
  simp only [insert?, bind, Option.bind_eq_some_iff] at h
  obtain ⟨t, -, h⟩ := h
  split at h
  · cases h
  · refine foldlM_some_of_step (P := fun s => s.SameSchema db) ?_ (.refl db) h
    intro s row _ s' hs hstep
    have hdistinct := hasDistinctTables_of_sameSchema hs hdb
    split at hstep
    · cases hstep
    · obtain ⟨values, -, hstep⟩ := Option.bind_eq_some_iff.mp hstep
      exact (sameSchema_insertRow? hdistinct hstep).trans hs

theorem sameSchema_copyRows? {db next : Database} {target source : String} {columns : List String}
    (hdb : db.HasDistinctTables) (h : db.copyRows? target source columns = some next) :
    next.SameSchema db := by
  simp only [copyRows?, bind, Option.bind_eq_some_iff] at h
  obtain ⟨t, -, s, -, h⟩ := h
  split at h
  · cases h
  · refine foldlM_some_of_step (P := fun s => s.SameSchema db) ?_ (.refl db) h
    intro s row _ s' hs hstep
    exact (sameSchema_insertRow? (hasDistinctTables_of_sameSchema hs hdb) hstep).trans hs

theorem sameSchema_clear? {db next : Database} {table : String} (hdb : db.HasDistinctTables)
    (h : db.clear? table = some next) : next.SameSchema db := by
  simp only [clear?, bind, Option.bind_eq_some_iff] at h
  obtain ⟨t, -, h⟩ := h
  exact sameSchema_withoutRows? hdb h

end Database

end ProjectHub.Sqlite
