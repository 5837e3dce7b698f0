import ProjectHub.Proofs.Sqlite.Alteration
import ProjectHub.Proofs.Sqlite.Typing

/-!
# Rows that fit their columns

The values of all rows of a database are in the form that their columns prefer,
whatever commands have made it. Rows get there by being added, and their values
by a reference that lets them go or by a column that is added; all of these store
them as the columns do.
-/

namespace ProjectHub.Sqlite

namespace StoredTable

/-- A table whose types are what their names say, but for those that a strict table keeps as they
come, and whose numbers are kept in a key column of whole numbers. -/
structure IsNamed (t : StoredTable) : Prop where
  types : ∀ c ∈ t.columns,
    c.type.IsNamed ∨ (t.isStrict = true ∧ Text.sameAscii c.type.text "ANY" = true)
  number : ∀ n, t.rowNumber = some n →
    (∃ key ∈ t.keys, ∃ part ∈ key.columns, sameName part.1 n.column = true) ∧
      ∃ c ∈ t.columns, sameName c.name n.column = true ∧ c.type.affinity = .integer

/-- Whether a row has a value for each column, which the column stores as it is. -/
def Fits (t : StoredTable) (row : Row) : Prop :=
  List.Forall₂ (fun c v => c.type.affinity.store v = v) t.columns row.values

variable {t : StoredTable} {row next : Row} {c : StoredColumn} {v : Value} {seed : Nat}

theorem eq_of_sameName (ht : t.HasDistinctColumns) {d : StoredColumn} (hc : c ∈ t.columns)
    (hd : d ∈ t.columns) (hname : sameName c.name d.name = true) : c = d :=
  List.inj_on_of_nodup_map ht hc hd (sameName_iff.mp hname)

theorem exists_position? (ht : t.HasDistinctColumns) (hc : c ∈ t.columns) :
    ∃ i, t.position? c.name = some i ∧ t.columns[i]? = some c := by
  obtain ⟨i, hi⟩ : ∃ i, t.position? c.name = some i := by
    rw [← Option.isSome_iff_exists, position?, List.findIdx?_isSome, List.any_eq_true]
    exact ⟨c, hc, sameName_self _⟩
  obtain ⟨hlt, hsame, -⟩ := List.findIdx?_eq_some_iff_getElem.mp hi
  refine ⟨i, hi, ?_⟩
  rw [List.getElem?_eq_getElem hlt, eq_of_sameName ht (List.getElem_mem hlt) hc hsame]

theorem Fits.setValue (h : t.Fits row) (ht : t.HasDistinctColumns) (hc : c ∈ t.columns)
    (hv : c.type.affinity.store v = v) : t.Fits (t.setValue row c.name v) := by
  obtain ⟨i, hi, hat⟩ := exists_position? ht hc
  unfold StoredTable.setValue
  rw [hi]
  obtain ⟨hlength, hall⟩ := List.forall₂_iff_get.mp h
  refine List.forall₂_iff_get.mpr ⟨by simpa using hlength, fun j hj hj' => ?_⟩
  simp only [List.get_eq_getElem, List.getElem_set]
  split
  · rename_i hsame
    rw [hsame, List.getElem?_eq_getElem hj, Option.some.injEq] at hat
    rw [hat]
    exact hv
  · exact hall j hj (by simpa using hj')

theorem store_defaultValue? (h : t.defaultValue? seed c = some v) : c.type.affinity.store v = v := by
  unfold defaultValue? at h
  split at h
  · cases h
    exact Affinity.store_null _
  · simp only [bind, Option.bind_eq_some_iff, pure, Option.some.injEq] at h
    obtain ⟨value, -, rfl⟩ := h
    exact Affinity.store_store _ _

theorem holdsNumber_iff {column : String} : t.holdsNumber column = true ↔
    ∃ n, t.rowNumber = some n ∧ sameName n.column column = true := by
  unfold holdsNumber
  cases t.rowNumber with
  | none => simp
  | some n => simp

theorem IsNamed.integer (h : t.IsNamed) (ht : t.HasDistinctColumns) (hc : c ∈ t.columns)
    (hnumber : t.holdsNumber c.name = true) : c.type.affinity = .integer := by
  obtain ⟨n, hn, hown⟩ := holdsNumber_iff.mp hnumber
  obtain ⟨-, d, hd, hsame, haffinity⟩ := h.number n hn
  have hboth : sameName d.name c.name = true := by
    rw [sameName_left hsame]
    exact hown
  rw [← eq_of_sameName ht hd hc hboth, haffinity]

theorem store_newValue? (h : t.IsNamed) (ht : t.HasDistinctColumns) (hc : c ∈ t.columns)
    {number : Int} {given : List (String × Value)}
    (hv : t.newValue? seed number given c = some v) : c.type.affinity.store v = v := by
  unfold newValue? at hv
  split at hv
  · rename_i hnumber
    cases hv
    rw [h.integer ht hc hnumber, Affinity.store_integer]
  · split at hv
    · cases hv
      exact Affinity.store_store _ _
    · exact store_defaultValue? hv

theorem fits_compute? (ht : t.HasDistinctColumns) {pending left : List StoredColumn}
    (hpending : ∀ c ∈ pending, c ∈ t.columns) (hrow : t.Fits row)
    (h : t.compute? seed pending row = some (left, next)) :
    t.Fits next ∧ ∀ c ∈ left, c ∈ t.columns := by
  refine foldlM_some_of_step (P := fun s => t.Fits s.2 ∧ ∀ c ∈ s.1, c ∈ t.columns) ?_
    ⟨hrow, by simp⟩ h
  rintro ⟨left, row⟩ c hc ⟨left', row'⟩ ⟨hrow, hleft⟩ hstep
  have hc := hpending c hc
  simp only at hstep
  split at hstep
  · cases hstep
    exact ⟨hrow, hleft⟩
  · split at hstep
    · cases hstep
      refine ⟨hrow, fun d hd => ?_⟩
      rcases List.mem_append.mp hd with hd | hd
      · exact hleft d hd
      · rwa [List.mem_singleton.mp hd]
    · simp only [bind, Option.bind_eq_some_iff, pure, Option.some.injEq] at hstep
      obtain ⟨value, -, hstep⟩ := hstep
      cases hstep
      exact ⟨hrow.setValue ht hc (Affinity.store_store _ _), hleft⟩

theorem fits_computeAll? (ht : t.HasDistinctColumns) {steps : Nat} {pending : List StoredColumn}
    (hpending : ∀ c ∈ pending, c ∈ t.columns) (hrow : t.Fits row)
    (h : t.computeAll? seed steps pending row = some next) : t.Fits next := by
  induction steps generalizing pending row with
  | zero =>
      cases pending with
      | nil =>
          cases h
          exact hrow
      | cons c pending => cases h
  | succ steps ih =>
      cases pending with
      | nil =>
          cases h
          exact hrow
      | cons c pending =>
          simp only [computeAll?, bind, Option.bind_eq_some_iff] at h
          obtain ⟨⟨left, middle⟩, hmiddle, h⟩ := h
          obtain ⟨hfits, hleft⟩ := fits_compute? ht hpending hrow hmiddle
          exact ih hleft hfits h

theorem fits_withComputed? (ht : t.HasDistinctColumns) (hrow : t.Fits row)
    (h : t.withComputed? seed row = some next) : t.Fits next :=
  fits_computeAll? ht (fun _ hc => List.mem_of_mem_filter hc) hrow h

theorem fits_withoutNulls (ht : t.HasDistinctColumns) (hrow : t.Fits row)
    (h : t.withoutNulls seed row = .ok next) : t.Fits next := by
  refine foldlM_ok_of_step (P := t.Fits) (fun row c hc next hrow hstep => ?_) hrow h
  split at hstep
  · cases hstep
    exact hrow
  · split at hstep
    · cases hstep
      exact hrow
    · split at hstep
      · rename_i v hdefault _
        split at hstep
        · cases hstep
        · cases hstep
          exact hrow.setValue ht hc (store_defaultValue? hdefault)
      · cases hstep
      · cases hstep

/-- A new row fits its table. -/
theorem fits_newRow (hnamed : t.IsNamed) (ht : t.HasDistinctColumns)
    {given : List (String × Value)} (h : t.newRow seed given = .ok next) : t.Fits next := by
  simp only [newRow] at h
  split at h
  · cases h
  · rename_i row hstarted
    simp only [bind, Option.bind_eq_some_iff] at hstarted
    obtain ⟨number, -, values, hvalues, hcomputed⟩ := hstarted
    have hfits : t.Fits ⟨number, values⟩ := by
      refine (forall₂_of_mapM hvalues).imp fun c v hpair => ?_
      obtain ⟨hc, hv⟩ := hpair
      split at hv
      · cases hv
        exact Affinity.store_null _
      · exact store_newValue? hnamed ht hc hv
    obtain ⟨filled, hfilled, h⟩ := exists_of_bind_ok h
    have hlast := fits_withoutNulls ht (fits_withComputed? ht hfits hcomputed) hfilled
    split at h
    · cases h
      exact hlast
    · cases h

theorem name_of_bare {t u : StoredTable} (h : t.bare = u.bare) : t.name = u.name := by
  have hname : t.bare.name = u.bare.name := by rw [h]
  exact hname

theorem foreignKeys_of_bare {t u : StoredTable} (h : t.bare = u.bare) :
    t.foreignKeys = u.foreignKeys := by
  have hkeys : t.bare.foreignKeys = u.bare.foreignKeys := by rw [h]
  exact hkeys

theorem columns_of_bare {t u : StoredTable} (h : t.bare = u.bare) : t.columns = u.columns := by
  have hcolumns : t.bare.columns = u.bare.columns := by rw [h]
  exact hcolumns

end StoredTable

namespace Database

/-! ## Deletions -/

/-- What a deletion does to a table: rows of it go, or the columns of a reference get other values
in some of them. -/
inductive Thins : StoredTable → StoredTable → Prop
  | remove (t : StoredTable) (stays : Row → Bool) : Thins t { t with rows := t.rows.filter stays }
  | release {t next : StoredTable} {f : ForeignKey} {rows : List Row} {value : StoredColumn → Value}
      (stored : ∀ c, c.type.affinity.store (value c) = value c)
      (released : release? t f rows value = some next) : Thins t next

theorem Thins.bare {t next : StoredTable} (h : Thins t next) : next.bare = t.bare := by
  cases h with
  | remove => rfl
  | release _ released => exact bare_of_release? released

theorem store_literalDefault (c : StoredColumn) :
    c.type.affinity.store (literalDefault c) = literalDefault c := by
  unfold literalDefault
  split
  · exact Affinity.store_store _ _
  · exact Affinity.store_null _

theorem Thins.of_release? {t next : StoredTable} {f : ForeignKey} {rows : List Row}
    {value : StoredColumn → Value} (hvalue : value = (fun _ => .null) ∨ value = literalDefault)
    (h : release? t f rows value = some next) : Thins t next := by
  rcases hvalue with rfl | rfl
  · exact .release (fun c => Affinity.store_null _) h
  · exact .release store_literalDefault h

section Deletions

variable (reached : StoredTable → Prop) {start : Database} (hstart : start.HasDistinctTables)
  (hbare : ∀ {t u : StoredTable}, t.bare = u.bare → reached t → reached u)
  (hclosed : ∀ t ∈ start.tables, reached t → ∀ u ∈ start.tables, ∀ f ∈ u.foreignKeys,
    sameName f.reference.parent t.name = true → f.reference.deletion ≠ .refuse → reached u)

include hstart hbare hclosed

/-- A table that refers to one that is reached is reached too, as far as it does not refuse. -/
theorem reached_of_referencesTo {db s : Database} (hdb : db.SameSchema start)
    (hs : s.SameSchema start) {t child : StoredTable} (ht : t ∈ db.tables) (hreached : reached t)
    {name : String} {f : ForeignKey} (href : (name, f) ∈ db.referencesTo t.name)
    (hchild : s.table? name = some child) (hacts : f.reference.deletion ≠ .refuse) :
    reached child := by
  obtain ⟨u, hu, href⟩ := List.mem_flatMap.mp href
  obtain ⟨_, hf, heq⟩ := List.mem_map.mp href
  cases heq
  obtain ⟨hf, hparent⟩ := List.mem_filter.mp hf
  obtain ⟨hmem, hname⟩ := sameName_of_table? hchild
  -- the three tables as they stand in the database that the deletion starts from
  obtain ⟨t₀, ht₀, htbare⟩ := has_of_sameSchema hdb.symm ⟨t, ht, rfl⟩
  obtain ⟨u₀, hu₀, hubare⟩ := has_of_sameSchema hdb.symm ⟨u, hu, rfl⟩
  obtain ⟨v₀, hv₀, hvbare⟩ := has_of_sameSchema hs.symm ⟨child, hmem, rfl⟩
  have hsame : v₀ = u₀ := by
    refine eq_of_sameName hstart hv₀ hu₀ ?_
    rw [StoredTable.name_of_bare hvbare, StoredTable.name_of_bare hubare]
    exact hname
  refine hbare (hsame ▸ hvbare) ?_
  refine hclosed t₀ ht₀ (hbare htbare.symm hreached) u₀ hu₀ f ?_ ?_ hacts
  · rw [StoredTable.foreignKeys_of_bare hubare]
    exact hf
  · rw [StoredTable.name_of_bare htbare]
    exact hparent

/-- What holds of a database before rows are deleted from a table, and is kept where a table is
thinned that the deletion reaches, holds after it. A deletion reaches the tables that refer to one
it reaches, unless they refuse. -/
theorem deleteRows?_induct {P : Database → Prop}
    (hstep : ∀ {s : Database} {t thin : StoredTable}, s.SameSchema start → P s → t ∈ s.tables →
      reached t → Thins t thin → P (s.setTable thin))
    {steps : Nat} {db next : Database} {table : String} {gone : List Row} {t : StoredTable}
    (hdb : db.SameSchema start) (ht : db.table? table = some t) (hreached : reached t) (hP : P db)
    (h : deleteRows? steps db table gone = some next) : P next := by
  induction steps generalizing db next table gone t with
  | zero => cases h
  | succ steps ih =>
      obtain ⟨t', ht', hsteps⟩ := deleteRows?_steps h
      rw [ht] at ht'
      cases ht'
      have htmem := (sameName_of_table? ht).1
      have hthin {s : Database} (hs : s.SameSchema start) (hPs : P s) {u thin : StoredTable}
          (hu : u ∈ s.tables) (hr : reached u) (h : Thins u thin) :
          (s.setTable thin).SameSchema start ∧ P (s.setTable thin) :=
        ⟨(sameSchema_setTable (hasDistinctTables_of_sameSchema hs hstart)
          (has_of_bare h.bare.symm ⟨u, hu, rfl⟩)).trans hs, hstep hs hPs hu hr h⟩
      refine (hsteps (fun s => s.SameSchema start ∧ P s)
        (hthin hdb hP htmem hreached (.remove t fun row => !gone.contains row)) ?_).2
      rintro s name f s' href ⟨hs, hPs⟩ hfollows
      cases hfollows with
      | leave => exact ⟨hs, hPs⟩
      | cascade found acts deleted =>
          have hr := reached_of_referencesTo reached hstart hbare hclosed hdb hs htmem hreached href
            found acts
          exact ⟨(sameSchema_deleteRows? (hasDistinctTables_of_sameSchema hs hstart) deleted).trans hs,
            ih hs found hr hPs deleted⟩
      | release found acts value_eq released =>
          have hr := reached_of_referencesTo reached hstart hbare hclosed hdb hs htmem hreached href
            found acts
          exact hthin hs hPs (sameName_of_table? found).1 hr (.of_release? value_eq released)

end Deletions

/-! ## Databases whose rows fit -/

/-- Whether every row fits its table. -/
def RowsFit (db : Database) : Prop :=
  ∀ t ∈ db.tables, ∀ row ∈ t.rows, t.Fits row

/-- What holds of every database that commands with named types make. -/
structure Fits (db : Database) : Prop where
  sound : db.Sound
  named : ∀ t ∈ db.tables, t.IsNamed
  rows : db.RowsFit

section

variable {db next : Database} {t : StoredTable} {name table column newName : String} {row : Row}

theorem fits_empty : empty.Fits :=
  ⟨sound_empty, by simp [empty], by simp [RowsFit, empty]⟩

theorem named_of_sameSchema {a b : Database} (h : a.SameSchema b) (hb : ∀ t ∈ b.tables, t.IsNamed) :
    ∀ t ∈ a.tables, t.IsNamed := by
  intro t ht
  obtain ⟨u, hu, hbare⟩ := has_of_sameSchema h.symm ⟨t, ht, rfl⟩
  have hnamed := hb u hu
  have hbared : u.bare.IsNamed := ⟨hnamed.types, hnamed.number⟩
  rw [hbare] at hbared
  exact ⟨hbared.types, hbared.number⟩

theorem rowsFit_setTable (hdb : db.RowsFit) (ht : ∀ row ∈ t.rows, t.Fits row) :
    (db.setTable t).RowsFit := by
  intro u hu
  obtain ⟨v, hv, rfl⟩ := List.mem_map.mp hu
  split
  · exact ht
  · exact hdb v hv

theorem fits_thins (ht : t.HasDistinctColumns) (hrows : ∀ row ∈ t.rows, t.Fits row)
    {thin : StoredTable} (h : Thins t thin) : ∀ row ∈ thin.rows, thin.Fits row := by
  cases h with
  | remove stays =>
      intro row hrow
      exact hrows row (List.mem_of_mem_filter hrow)
  | release stored released =>
      rename_i f gone value
      simp only [release?, Option.ite_none_left_eq_some, Option.some.injEq] at released
      obtain ⟨-, rfl⟩ := released
      intro row hrow
      obtain ⟨old, hold, rfl⟩ := List.mem_map.mp hrow
      show t.Fits _
      have hfit := hrows old hold
      clear hold hrow
      split
      · have hcolumns : ∀ c ∈ f.columns.filterMap t.column?, c ∈ t.columns := by
          intro c hc
          obtain ⟨name, -, hname⟩ := List.mem_filterMap.mp hc
          exact List.mem_of_find?_eq_some hname
        rename_i hgone
        clear hgone
        generalize f.columns.filterMap t.column? = cs at hcolumns
        induction cs generalizing old with
        | nil => exact hfit
        | cons c cs ih =>
            obtain ⟨hc, hcs⟩ := List.forall_mem_cons.mp hcolumns
            exact ih _ (hfit.setValue ht hc (stored c)) hcs
      · exact hfit

theorem rowsFit_withoutRows? (hdb : db.Sound) (hrows : db.RowsFit) {gone : List Row}
    (h : db.withoutRows? table gone = some next) : next.RowsFit := by
  obtain ⟨t, ht⟩ := exists_table?_of_withoutRows? h
  refine deleteRows?_induct (fun _ => True) (P := RowsFit) hdb.tables (fun _ _ => trivial)
    (fun _ _ _ _ _ _ _ _ _ => trivial) ?_ (.refl db) ht trivial hrows h
  intro s t thin hs hfit ht _ hthins
  exact rowsFit_setTable hfit
    (fits_thins ((sound_of_sameSchema hs hdb).columns t ht) (hfit t ht) hthins)

theorem rowsFit_placeRow? {parts : List (Resolution × (Row → Option (List Value)))} (hdb : db.Sound)
    (hrows : db.RowsFit) (ht : t ∈ db.tables) (hrow : t.Fits row)
    (h : db.placeRow? t row parts = some next) : next.RowsFit := by
  induction parts generalizing db t with
  | nil =>
      simp only [placeRow?] at h
      split at h
      · cases h
        refine rowsFit_setTable hrows fun other hother => ?_
        rcases List.mem_append.mp hother with hother | hother
        · exact hrows t ht other hother
        · rw [List.mem_singleton.mp hother]
          exact hrow
      · cases h
  | cons part parts ih =>
      obtain ⟨r, key⟩ := part
      simp only [placeRow?] at h
      -- whether the row has a key, it has rivals or none
      split at h
      all_goals
        split at h
        · exact ih hdb hrows ht hrow h
        · split at h
          · cases h
          · cases h
            exact hrows
          · simp only [bind, Option.bind_eq_some_iff] at h
            obtain ⟨left, hleft, t', ht', h⟩ := h
            have hsame := sameSchema_withoutRows? hdb.tables hleft
            have hsound := sound_of_sameSchema hsame hdb
            obtain ⟨hmem, hname⟩ := sameName_of_table? ht'
            obtain ⟨u, hu, hbare⟩ := has_of_sameSchema hsame.symm ⟨t', hmem, rfl⟩
            have hown : u = t := by
              refine eq_of_sameName hdb.tables hu ht ?_
              rw [StoredTable.name_of_bare hbare]
              exact hname
            refine ih hsound (rowsFit_withoutRows? hdb hrows hleft) hmem ?_ h
            have hcolumns := StoredTable.columns_of_bare (hown ▸ hbare)
            unfold StoredTable.Fits at hrow ⊢
            rwa [← hcolumns]

theorem fits_insertRow? (hdb : db.Fits) {given : List (String × Value)}
    (h : db.insertRow? table given = some next) : next.Fits := by
  have hsame := sameSchema_insertRow? hdb.sound.tables h
  refine ⟨sound_of_sameSchema hsame hdb.sound, named_of_sameSchema hsame hdb.named, ?_⟩
  simp only [insertRow?, bind, Option.bind_eq_some_iff] at h
  obtain ⟨t, ht, h⟩ := h
  have htmem := (sameName_of_table? ht).1
  have hdrawn : ({ db with drawn := db.drawn + 1 } : Database).Sound :=
    ⟨hdb.sound.tables, hdb.sound.indexes, hdb.sound.columns, hdb.sound.owned⟩
  split at h
  · cases h
  · cases h
    exact hdb.rows
  · rename_i row hrow
    split at h
    · cases h
    · exact rowsFit_placeRow? hdrawn hdb.rows htmem
        (StoredTable.fits_newRow (hdb.named t htmem) (hdb.sound.columns t htmem) hrow) h

theorem fits_insert? (hdb : db.Fits) {columns : Option (List String)} {rows : List (List Expr)}
    (h : db.insert? table columns rows = some next) : next.Fits := by
  simp only [insert?, bind, Option.bind_eq_some_iff] at h
  obtain ⟨t, -, h⟩ := h
  split at h
  · cases h
  · refine foldlM_some_of_step (P := Fits) ?_ hdb h
    intro s row _ s' hs hstep
    split at hstep
    · cases hstep
    · obtain ⟨values, -, hstep⟩ := Option.bind_eq_some_iff.mp hstep
      exact fits_insertRow? hs hstep

theorem fits_copyRows? (hdb : db.Fits) {target source : String} {columns : List String}
    (h : db.copyRows? target source columns = some next) : next.Fits := by
  simp only [copyRows?, bind, Option.bind_eq_some_iff] at h
  obtain ⟨t, -, s, -, h⟩ := h
  split at h
  · cases h
  · exact foldlM_some_of_step (P := Fits) (fun s row _ s' hs hstep => fits_insertRow? hs hstep) hdb h

theorem fits_withoutRows? (hdb : db.Fits) {gone : List Row}
    (h : db.withoutRows? table gone = some next) : next.Fits := by
  have hsame := sameSchema_withoutRows? hdb.sound.tables h
  exact ⟨sound_of_sameSchema hsame hdb.sound, named_of_sameSchema hsame hdb.named,
    rowsFit_withoutRows? hdb.sound hdb.rows h⟩

/-! ## Tables from definitions -/

theorem ofDefinition?_eq {d : ColumnDefinition} {c : StoredColumn}
    (h : StoredColumn.ofDefinition? d = some c) : c.name = d.name ∧ c.type = d.type := by
  refine foldlM_some_of_step (P := fun c : StoredColumn => c.name = d.name ∧ c.type = d.type) ?_
    ⟨rfl, rfl⟩ h
  intro c constraint _ c' hc hstep
  cases constraint with
  | notNull r =>
      cases hstep
      exact hc
  | default v =>
      obtain ⟨-, hstep⟩ := Option.ite_none_left_eq_some.mp hstep
      cases hstep
      exact hc
  | collate word =>
      obtain ⟨collation, -, rfl⟩ := Option.map_eq_some_iff.mp hstep
      exact hc
  | generated e isStored =>
      obtain ⟨-, hstep⟩ := Option.ite_none_left_eq_some.mp hstep
      cases hstep
      exact hc
  | _ =>
      cases hstep
      exact hc

/-- A column of a strict table keeps its type, unless that takes any value. -/
theorem strict?_type {c strict : StoredColumn} (h : c.strict? = some strict) :
    strict.type = c.type ∨
      Text.sameAscii strict.type.text "ANY" = true ∧ strict.type.text = c.type.text ∧
        strict.type.numbersRows = c.type.numbersRows := by
  simp only [StoredColumn.strict?, Option.ite_none_left_eq_some] at h
  obtain ⟨-, h⟩ := h
  split at h
  · rename_i hany
    cases h
    exact .inr ⟨hany, rfl, rfl⟩
  · cases h
    exact .inl rfl

/-- Whether a column has a type that is what its name says, or is to keep values as they come. -/
def Typed (isStrict : Bool) (c : StoredColumn) : Prop :=
  c.type.IsNamed ∨ (isStrict = true ∧ Text.sameAscii c.type.text "ANY" = true)

theorem typed_of_strict? {c strict : StoredColumn} (hc : c.type.IsNamed)
    (h : c.strict? = some strict) :
    Typed true strict ∧ (strict.type.numbersRows = true → strict.type.affinity = .integer) := by
  rcases strict?_type h with hsame | ⟨hany, htext, hnumbers⟩
  · refine ⟨.inl (hsame ▸ hc), fun hnumber => ?_⟩
    rw [hsame] at hnumber ⊢
    exact hc.integer hnumber
  · refine ⟨.inr ⟨rfl, hany⟩, fun hnumber => ?_⟩
    -- a type of the name ANY is none that numbers rows
    have hinteger := hc.number (hnumbers ▸ hnumber)
    rw [htext] at hany
    have hboth := (Text.sameAscii_iff.mp hany).symm.trans (Text.sameAscii_iff.mp hinteger)
    exact absurd hboth (by decide)

theorem typed_of_mapM {isStrict : Bool} {ds : List ColumnDefinition} {asked cs : List StoredColumn}
    (hds : ∀ d ∈ ds, d.type.IsNamed) (hasked : ds.mapM StoredColumn.ofDefinition? = some asked)
    (hcs : (if isStrict then asked.mapM StoredColumn.strict? else some asked) = some cs) :
    ∀ c ∈ cs, Typed isStrict c ∧ (c.type.numbersRows = true → c.type.affinity = .integer) := by
  have hnamed : ∀ c ∈ asked, c.type.IsNamed := by
    intro c hc
    obtain ⟨d, hd, hdc⟩ := exists_of_mem_mapM hasked hc
    rw [(ofDefinition?_eq hdc).2]
    exact hds d hd
  intro c hc
  cases isStrict with
  | true =>
      obtain ⟨a, ha, hac⟩ := exists_of_mem_mapM hcs hc
      exact typed_of_strict? (hnamed a ha) hac
  | false =>
      cases hcs
      exact ⟨.inl (hnamed c hc), (hnamed c hc).integer⟩

/-- The column that holds the numbers of the rows is one of the key that asks for it. -/
theorem key_of_rowNumber? {cs : List StoredColumn} {r : KeyRequest} {key : Key} {n : RowNumber}
    (hkey : r.key? cs = some key) (h : r.rowNumber? cs key = some n) :
    key.isPrimary = true ∧ (∃ part ∈ key.columns, part.1 = n.column) ∧
      ∃ c ∈ cs, sameName c.name n.column = true ∧ c.type.numbersRows = true := by
  unfold KeyRequest.rowNumber? at h
  split at h
  · rename_i name collation hcolumns
    split at h
    · rename_i hnumber
      cases h
      simp only [Bool.and_eq_true, List.any_eq_true] at hnumber
      obtain ⟨⟨hprimary, -⟩, c, hc, hname, hnumbers⟩ := hnumber
      refine ⟨?_, ⟨_, by rw [hcolumns]; exact List.mem_singleton_self _, rfl⟩, c, hc, hname, hnumbers⟩
      simp only [KeyRequest.key?, bind, Option.bind_eq_some_iff, pure, Option.some.injEq] at hkey
      obtain ⟨parts, -, rfl⟩ := hkey
      exact hprimary
    · cases h
  · cases h

theorem isNamed_withKeyColumns (h : t.IsNamed) : t.withKeyColumns.IsNamed := by
  have hcolumn {c : StoredColumn} (hc : c ∈ t.columns) :
      ∃ d ∈ t.withKeyColumns.columns, d.name = c.name ∧ d.type = c.type := by
    refine ⟨_, List.mem_map_of_mem hc, ?_⟩
    split <;> exact ⟨rfl, rfl⟩
  constructor
  · intro d hd
    obtain ⟨c, hc, rfl⟩ := List.mem_map.mp hd
    split <;> exact h.types c hc
  · intro n hn
    obtain ⟨hkey, c, hc, hname, haffinity⟩ := h.number n hn
    obtain ⟨d, hd, hdname, hdtype⟩ := hcolumn hc
    exact ⟨hkey, d, hd, hdname ▸ hname, hdtype ▸ haffinity⟩

/-- A table of typed columns keeps the numbers of its rows in one of those that number rows. -/
theorem isNamed_of_asked {cs : List StoredColumn} {requests : List KeyRequest}
    {asked : List (KeyRequest × Key)} {keys : List Key}
    (hcs : ∀ c ∈ cs, Typed t.isStrict c ∧ (c.type.numbersRows = true → c.type.affinity = .integer))
    (hasked : requests.mapM (fun r => (r.key? cs).map fun key => (r, key)) = some asked)
    (hcolumns : t.columns = cs)
    (hkeys : t.keys = (asked.map Prod.snd).filter (fun key => key.isPrimary &&
      (asked.findSome? fun (r, key) => r.rowNumber? cs key).isSome) ++ keys)
    (hnumber : ∀ n, t.rowNumber = some n →
      (asked.findSome? fun (r, key) => r.rowNumber? cs key) = some n) : t.IsNamed := by
  refine ⟨fun c hc => (hcs c (hcolumns ▸ hc)).1, fun n hn => ?_⟩
  have hfound := hnumber n hn
  obtain ⟨⟨r, key⟩, hmem, hn⟩ := List.exists_of_findSome?_eq_some hfound
  obtain ⟨request, -, hrequest⟩ := exists_of_mem_mapM hasked hmem
  obtain ⟨_, hkey, heq⟩ := Option.map_eq_some_iff.mp hrequest
  cases heq
  obtain ⟨hprimary, ⟨part, hpart, hname⟩, c, hc, hcname, hnumbers⟩ := key_of_rowNumber? hkey hn
  refine ⟨⟨key, ?_, part, hpart, by rw [hname]; exact sameName_self _⟩, c, hcolumns ▸ hc, hcname,
    (hcs c hc).2 hnumbers⟩
  rw [hkeys, hfound]
  refine List.mem_append_left _ (List.mem_filter.mpr ⟨List.mem_map_of_mem hmem, ?_⟩)
  simp [hprimary]

theorem isNamed_of_ofDefinition? {definition : TableDefinition}
    (hnamed : ∀ d ∈ definition.columns, d.type.IsNamed)
    (h : StoredTable.ofDefinition? name definition = some t) : t.IsNamed ∧ t.rows = [] := by
  obtain ⟨made, cs, asked, keys, hmade⟩ := ofDefinition?_eq_some_iff.mp h
  cases hmade.eq
  have htyped := typed_of_mapM hnamed hmade.columnsMade hmade.columnsTyped
  refine ⟨isNamed_withKeyColumns (isNamed_of_asked htyped hmade.keysAsked rfl rfl ?_), rfl⟩
  exact fun n hn => (Option.ite_none_left_eq_some.mp hn).2

/-! ## Commands -/

theorem forall₂_eraseIdx {α β : Type} {R : α → β → Prop} {as : List α} {bs : List β}
    (h : List.Forall₂ R as bs) (i : Nat) : List.Forall₂ R (as.eraseIdx i) (bs.eraseIdx i) := by
  induction h generalizing i with
  | nil => exact .nil
  | cons hfirst hrest ih =>
      cases i with
      | zero => exact hrest
      | succ i => exact .cons hfirst (ih i)

theorem fits_createTable? (hdb : db.Fits) {definition : TableDefinition}
    (hnamed : ∀ d ∈ definition.columns, d.type.IsNamed)
    (h : db.createTable? name definition = some next) : next.Fits := by
  have hsound := sound_createTable? hdb.sound h
  obtain ⟨t, ht, -, rfl⟩ := createTable?_eq h
  obtain ⟨htnamed, hrows⟩ := isNamed_of_ofDefinition? hnamed ht
  refine ⟨hsound, ?_, ?_⟩
  · intro u hu
    rcases List.mem_append.mp hu with hu | hu
    · exact hdb.named u hu
    · exact List.mem_singleton.mp hu ▸ htnamed
  · intro u hu row hrow
    rcases List.mem_append.mp hu with hu | hu
    · exact hdb.rows u hu row hrow
    · rw [List.mem_singleton.mp hu, hrows] at hrow
      cases hrow

theorem fits_dropTable? (hdb : db.Fits) (h : db.dropTable? name = some next) : next.Fits := by
  have hsound := sound_dropTable? hdb.sound h
  simp only [dropTable?, bind, Option.bind_eq_some_iff, pure, Option.some.injEq] at h
  obtain ⟨t, -, left, hleft, rfl⟩ := h
  have hfits := fits_withoutRows? hdb hleft
  exact ⟨hsound, fun u hu => hfits.named u (List.mem_of_mem_filter hu),
    fun u hu => hfits.rows u (List.mem_of_mem_filter hu)⟩

theorem fits_renameTable? (hdb : db.Fits) (h : db.renameTable? name newName = some next) :
    next.Fits := by
  have hsound := sound_renameTable? hdb.sound h
  obtain ⟨-, -, rfl⟩ := renameTable?_eq h
  refine ⟨hsound, ?_, ?_⟩
  · intro u hu
    obtain ⟨v, hv, rfl⟩ := List.mem_map.mp hu
    exact ⟨(hdb.named v hv).types, (hdb.named v hv).number⟩
  · intro u hu
    obtain ⟨v, hv, rfl⟩ := List.mem_map.mp hu
    exact hdb.rows v hv

theorem fits_setTable (hdb : db.Fits) (ht : t.HasDistinctColumns) (hnamed : t.IsNamed)
    (hrows : ∀ row ∈ t.rows, t.Fits row) : (db.setTable t).Fits := by
  refine ⟨sound_setTable hdb.sound ht, fun u hu => ?_, rowsFit_setTable hdb.rows hrows⟩
  obtain ⟨v, hv, rfl⟩ := List.mem_map.mp hu
  split
  · exact hnamed
  · exact hdb.named v hv

/-- A table with one more column, whose rows have the default of the column, or what is computed for
it. -/
theorem fits_widened {wider wide : StoredTable} {c : StoredColumn} (hdb : db.Fits)
    (ht : t ∈ db.tables) (hc : Typed t.isStrict c) (hdistinct : wider.HasDistinctColumns)
    (hcolumns : wider.columns = t.columns ++ [c]) (hstrict : wider.isStrict = t.isStrict)
    (hnumber : wider.rowNumber = t.rowNumber) (hkeys : wider.keys = t.keys)
    (hrows : wider.rows = (t.rows.map fun row => { row with
        values := row.values ++ [literalDefault c] }).map fun row =>
      if c.generated.isSome then (wide.withComputed? 0 row).getD row else row)
    (hwide : wide.columns = wider.columns) : (db.setTable wider).Fits := by
  have hnamed := hdb.named t ht
  refine fits_setTable hdb hdistinct ⟨?_, ?_⟩ fun row hrow => ?_
  · intro d hd
    rw [hcolumns] at hd
    rw [hstrict]
    rcases List.mem_append.mp hd with hd | hd
    · exact hnamed.types d hd
    · exact List.mem_singleton.mp hd ▸ hc
  · intro n hn
    obtain ⟨hkey, d, hd, hname, haffinity⟩ := hnamed.number n (hnumber ▸ hn)
    exact ⟨hkeys ▸ hkey, d, by rw [hcolumns]; exact List.mem_append_left _ hd, hname, haffinity⟩
  · rw [hrows] at hrow
    obtain ⟨added, hadded, rfl⟩ := List.mem_map.mp hrow
    obtain ⟨old, hold, rfl⟩ := List.mem_map.mp hadded
    have hfits : wider.Fits { old with values := old.values ++ [literalDefault c] } := by
      unfold StoredTable.Fits
      rw [hcolumns]
      exact List.rel_append (hdb.rows t ht old hold) (.cons (store_literalDefault c) .nil)
    have hwidely (row : Row) : wide.Fits row ↔ wider.Fits row := by
      unfold StoredTable.Fits
      rw [hwide]
    split
    · cases hcomputed : wide.withComputed? 0
        { old with values := old.values ++ [literalDefault c] } with
      | none => exact hfits
      | some made =>
          refine (hwidely made).mp (StoredTable.fits_withComputed? ?_ ((hwidely _).mpr hfits) hcomputed)
          unfold StoredTable.HasDistinctColumns
          rwa [hwide]
    · exact hfits

theorem fits_addColumn? (hdb : db.Fits) {definition : ColumnDefinition}
    (hnamed : definition.type.IsNamed) (h : db.addColumn? table definition = some next) :
    next.Fits := by
  have hsound := sound_addColumn? hdb.sound h
  simp only [addColumn?, bind, Option.bind_eq_some_iff] at h
  obtain ⟨t, ht, asked, hasked, h⟩ := h
  obtain ⟨htmem, htname⟩ := sameName_of_table? ht
  have hasked' : asked.type.IsNamed := (ofDefinition?_eq hasked).2 ▸ hnamed
  cases hstrict : t.isStrict with
  | true =>
      simp only [hstrict, if_true, Option.bind_eq_some_iff, Option.ite_none_left_eq_some] at h
      obtain ⟨c, hc, -, h⟩ := h
      cases h
      exact fits_widened hdb htmem (hstrict ▸ (typed_of_strict? hasked' hc).1)
        (hsound.columns _ (mem_of_setTable ht htname)) rfl hstrict.symm rfl rfl rfl rfl
  | false =>
      simp only [hstrict, Bool.false_eq_true, if_false, Option.bind_some,
        Option.ite_none_left_eq_some] at h
      obtain ⟨-, h⟩ := h
      cases h
      exact fits_widened hdb htmem (.inl hasked') (hsound.columns _ (mem_of_setTable ht htname)) rfl
        hstrict.symm rfl rfl rfl rfl

theorem fits_dropColumn? (hdb : db.Fits) (h : db.dropColumn? table column = some next) :
    next.Fits := by
  have hsound := sound_dropColumn? hdb.sound h
  obtain ⟨t, place, ht, hplace, hread, -, rfl⟩ := dropColumn?_eq h
  have htmem := (sameName_of_table? ht).1
  have hdistinct := hdb.sound.columns t htmem
  have hsettled : db.settleNames.Fits := ⟨sound_settleNames hdb.sound, hdb.named, hdb.rows⟩
  have hnamed := hdb.named t htmem
  refine fits_setTable hsettled (hdistinct.sublist ((List.eraseIdx_sublist _ _).map _)) ⟨?_, ?_⟩ ?_
  · exact fun c hc => hnamed.types c (List.mem_of_mem_eraseIdx hc)
  · intro n hn
    obtain ⟨⟨key, hkey, part, hpart, hname⟩, c, hc, hcname, haffinity⟩ := hnamed.number n hn
    refine ⟨⟨key, hkey, part, hpart, hname⟩, c, ?_, hcname, haffinity⟩
    -- a column of a key is read, so it stays
    rw [columns_withoutColumn hdistinct hplace]
    refine List.mem_filter.mpr ⟨hc, ?_⟩
    simp only [isRead, Bool.or_eq_false_iff] at hread
    have hparts : ∀ name collation, (name, collation) ∈ key.columns → sameName name column = false := by
      simpa using List.any_eq_false.mp hread.1.1.1 key hkey
    rw [sameName_left hcname, ← sameName_left hname, hparts part.1 part.2 hpart]
    rfl
  · intro row hrow
    obtain ⟨old, hold, rfl⟩ := List.mem_map.mp hrow
    exact forall₂_eraseIdx (hdb.rows t htmem old hold) place

theorem fits_execute? (hdb : db.Fits) {command : Command} (hnamed : command.IsNamed)
    (h : db.execute? command = some next) : next.Fits := by
  unfold execute? at h
  split at h
  · split at h
    · exact Option.some.inj h ▸ hdb
    · exact fits_createTable? hdb hnamed h
  · split at h
    · exact Option.some.inj h ▸ hdb
    · have hsound := sound_createIndex? hdb.sound h
      obtain ⟨t, parts, -, -, -, rfl⟩ := createIndex?_eq h
      exact ⟨hsound, hdb.named, hdb.rows⟩
  · split at h
    · exact Option.some.inj h ▸ hdb
    · exact fits_dropTable? hdb h
  · split at h
    · exact Option.some.inj h ▸ hdb
    · have hsound := sound_dropIndex? hdb.sound h
      rw [dropIndex?_eq h] at hsound ⊢
      exact ⟨hsound, hdb.named, hdb.rows⟩
  · exact fits_renameTable? hdb h
  · exact fits_addColumn? hdb hnamed h
  · exact fits_dropColumn? hdb h
  · exact fits_insert? hdb h
  · exact fits_copyRows? hdb h
  · simp only [clear?, bind, Option.bind_eq_some_iff] at h
    obtain ⟨t, -, h⟩ := h
    exact fits_withoutRows? hdb h
  · split at h
    · exact Option.some.inj h ▸ hdb
    · cases h
  · exact Option.some.inj h ▸ hdb

end

/-- The databases that commands with named types make from an empty one, such as those that texts
and statements say. -/
inductive Live : Database → Prop
  | empty : Live .empty
  | execute {db next : Database} {command : Command} (start : Live db) (named : command.IsNamed)
    (step : db.execute? command = some next) : Live next

/-- The rows of every database that commands with named types make fit its tables. -/
theorem Live.fits {db : Database} (h : db.Live) : db.Fits := by
  induction h with
  | empty => exact fits_empty
  | execute _ named step ih => exact fits_execute? ih named step

theorem Live.commands {db next : Database} (start : db.Live) {commands : List Command}
    (hnamed : ∀ command ∈ commands, command.IsNamed) (h : commands.foldlM execute? db = some next) :
    next.Live :=
  foldlM_some_of_step (P := Live) (fun _ _ hcommand _ hs hstep => hs.execute (hnamed _ hcommand) hstep)
    start h

/-- What the text of statements makes of a live database is one. -/
theorem Live.text {db next : Database} (start : db.Live) {text : String} {commands : List Command}
    (hread : Command.ofText? text = some commands) (h : db.transact? commands = some next) :
    next.Live := by
  simp only [transact?, bind, Option.bind_eq_some_iff, Option.ite_none_right_eq_some,
    Option.some.injEq] at h
  obtain ⟨reached, hreached, -, rfl⟩ := h
  exact start.commands (Command.isNamed_of_ofText? hread) hreached

theorem Live.run {db next : Database} (start : db.Live) {statements : List Sql.Statement}
    (h : db.run? statements = some next) : next.Live := by
  simp only [run?, transact?, bind, Option.bind_eq_some_iff, Option.ite_none_right_eq_some,
    Option.some.injEq] at h
  obtain ⟨commands, hcommands, reached, hreached, -, rfl⟩ := h
  refine start.commands (fun command hcommand => ?_) hreached
  obtain ⟨some', hsome, hmem⟩ := List.mem_flatten.mp hcommand
  obtain ⟨statement, -, hstatement⟩ := exists_of_mem_mapM hcommands hsome
  exact Command.isNamed_of_ofStatement? hstatement command hmem

end Database

end ProjectHub.Sqlite
