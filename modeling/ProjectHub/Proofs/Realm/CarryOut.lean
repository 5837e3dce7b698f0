import ProjectHub.Proofs.Realm.Difference

/-!
# Carrying out changes

What each change does to a realm, and when it can be done at all: a table is
created where there is none of its name, dropped or rebuilt where there is one,
and its columns and indexes come and go the same way. The difference of two
well-formed realms can be carried out to its end, and what comes out agrees with
the realm that was wanted.
-/

namespace ProjectHub

namespace SchemaChange

/-- The change with the column that it adds as `f` makes it. -/
def mapColumn (f : Column → Column) : SchemaChange → SchemaChange
  | addColumn table column => addColumn table (f column)
  | change => change

theorem mapColumn_id : mapColumn id = id := by
  funext change
  cases change <;> rfl

end SchemaChange

namespace Table

/-- The table after a change of one of its columns or indexes, if that can be made: what is new
is not there yet, what goes is there, and an index is on columns there are. -/
def change? (t : Table) : SchemaChange → Option Table
  | .addColumn _ column =>
    if t.hasColumn column.name then none else some { t with columns := t.columns ++ [column] }
  | .dropColumn _ column =>
    if t.hasColumn column then
      some { t with columns := t.columns.filter fun c => c.name ≠ column }
    else none
  | .addIndex _ index =>
    if t.indexes.contains index.name || !index.columns.all t.hasColumn then none
    else some { t with indexes := t.indexes.insert index.name index }
  | .dropIndex _ index =>
    if t.indexes.contains index then some { t with indexes := t.indexes.erase index } else none
  | _ => none

end Table

namespace Realm

/-- The realm with another table in the place of the one of a name, if there is one. -/
def replace? (r : Realm) (name : String) (f : Table → Option Table) : Option Realm := do
  let t ← r.tables.get? name
  return ⟨r.tables.insert name (← f t)⟩

/-- The realm after a change, if it can be made. -/
def carryOut? (r : Realm) : SchemaChange → Option Realm
  | .addTable t =>
    if r.tables.contains t.name then none else some ⟨r.tables.insert t.name t⟩
  | .dropTable name =>
    if r.tables.contains name then some ⟨r.tables.erase name⟩ else none
  | .rebuildTable _ after _ => r.replace? after.name fun _ => some after
  | change => r.replace? change.table fun t => t.change? change

/-- The realm after changes in their order, if all of them can be made. -/
def carryOutAll? (r : Realm) (changes : List SchemaChange) : Option Realm :=
  changes.foldlM carryOut? r

end Realm

/-! ## The groups of changes in place -/

namespace Table

private theorem foldlM_append_of_some {α σ : Type} {f : σ → α → Option σ} {first second : List α}
    {s t : σ} (h : first.foldlM f s = some t) :
    (first ++ second).foldlM f s = second.foldlM f t := by
  rw [List.foldlM_append, h]
  rfl

theorem changes_dropIndex (table : String) (names : List String) (t : Table)
    (distinct : names.Nodup) (there : ∀ name ∈ names, t.indexes.contains name = true) :
    (names.map (SchemaChange.dropIndex table)).foldlM change? t =
      some { t with indexes := t.indexes.filter fun name _ => decide (name ∉ names) } := by
  induction names generalizing t with
  | nil => simp
  | cons name rest ih =>
      obtain ⟨hn, hr⟩ := List.nodup_cons.1 distinct
      have step : t.change? (.dropIndex table name) =
          some { t with indexes := t.indexes.erase name } := by
        simp [change?, there name List.mem_cons_self]
      have left : ∀ other ∈ rest,
          ({ t with indexes := t.indexes.erase name } : Table).indexes.contains other = true := by
        intro other ho
        have hne : name ≠ other := fun same => hn (same ▸ ho)
        simpa [NameMap.contains, NameMap.get?_erase, hne] using
          there other (List.mem_cons_of_mem _ ho)
      rw [List.map_cons, List.foldlM_cons, step]
      change (rest.map (SchemaChange.dropIndex table)).foldlM change? _ = _
      rw [ih _ hr left]
      congr 2
      apply NameMap.ext_get?
      intro key
      simp only [NameMap.get?_filter, NameMap.get?_erase, List.mem_cons, not_or]
      by_cases h : name = key
      · simp [h]
      · simp [h, Ne.symm h]

theorem changes_dropColumn (table : String) (names : List String) (t : Table)
    (distinct : names.Nodup) (there : ∀ name ∈ names, t.hasColumn name = true) :
    (names.map (SchemaChange.dropColumn table)).foldlM change? t =
      some { t with columns := t.columns.filter fun c => decide (c.name ∉ names) } := by
  induction names generalizing t with
  | nil => simp
  | cons name rest ih =>
      obtain ⟨hn, hr⟩ := List.nodup_cons.1 distinct
      have step : t.change? (.dropColumn table name) =
          some { t with columns := t.columns.filter fun c => c.name ≠ name } := by
        simp [change?, there name List.mem_cons_self]
      have left : ∀ other ∈ rest,
          ({ t with columns := t.columns.filter fun c => c.name ≠ name } : Table).hasColumn
            other = true := by
        intro other ho
        obtain ⟨c, hc, rfl⟩ := hasColumn_iff.1 (there other (List.mem_cons_of_mem _ ho))
        refine hasColumn_iff.2 ⟨c, List.mem_filter.2 ⟨hc, ?_⟩, rfl⟩
        simpa using fun same : c.name = name => hn (same ▸ ho)
      rw [List.map_cons, List.foldlM_cons, step]
      change (rest.map (SchemaChange.dropColumn table)).foldlM change? _ = _
      rw [ih _ hr left]
      congr 2
      rw [List.filter_filter]
      congr 1
      funext c
      simp [not_or, Bool.and_comm]

theorem changes_addColumn (table : String) (columns : List Column) (t : Table)
    (distinct : (columns.map Column.name).Nodup)
    (free : ∀ c ∈ columns, t.hasColumn c.name = false) :
    (columns.map (SchemaChange.addColumn table)).foldlM change? t =
      some { t with columns := t.columns ++ columns } := by
  induction columns generalizing t with
  | nil => simp
  | cons c rest ih =>
      obtain ⟨hn, hr⟩ := List.nodup_cons.1 distinct
      have step : t.change? (.addColumn table c) =
          some { t with columns := t.columns ++ [c] } := by
        simp [change?, free c List.mem_cons_self]
      have left : ∀ d ∈ rest,
          ({ t with columns := t.columns ++ [c] } : Table).hasColumn d.name = false := by
        intro d hd
        have ht := free d (List.mem_cons_of_mem _ hd)
        rw [Bool.eq_false_iff, ne_eq, hasColumn_iff] at ht ⊢
        rintro ⟨e, he, name⟩
        rcases List.mem_append.1 he with he | he
        · exact ht ⟨e, he, name⟩
        · rw [List.mem_singleton.1 he] at name
          exact hn (name ▸ List.mem_map_of_mem hd)
      rw [List.map_cons, List.foldlM_cons, step]
      change (rest.map (SchemaChange.addColumn table)).foldlM change? _ = _
      rw [ih _ hr left]
      simp

theorem changes_addIndex (table : String) (entries : List (String × Index)) (t : Table)
    (distinct : (entries.map Prod.fst).Nodup) (own : ∀ e ∈ entries, e.2.name = e.1)
    (free : ∀ e ∈ entries, t.indexes.contains e.1 = false)
    (on : ∀ e ∈ entries, ∀ column ∈ e.2.columns, t.hasColumn column = true) :
    (entries.map fun e => SchemaChange.addIndex table e.2).foldlM change? t =
      some { t with
        indexes := entries.foldl (fun m entry => m.insert entry.1 entry.2) t.indexes } := by
  induction entries generalizing t with
  | nil => rfl
  | cons e rest ih =>
      obtain ⟨hn, hr⟩ := List.nodup_cons.1 distinct
      have step : t.change? (.addIndex table e.2) =
          some { t with indexes := t.indexes.insert e.1 e.2 } := by
        have hf := free e List.mem_cons_self
        have hc : e.2.columns.all t.hasColumn = true :=
          List.all_eq_true.2 (on e List.mem_cons_self)
        simp [change?, own e List.mem_cons_self, hf, hc]
      have left : ∀ other ∈ rest,
          ({ t with indexes := t.indexes.insert e.1 e.2 } : Table).indexes.contains
            other.1 = false := by
        intro other ho
        have hne : e.1 ≠ other.1 := fun same => hn (same ▸ List.mem_map_of_mem ho)
        simpa [NameMap.contains, NameMap.get?_insert, hne] using
          free other (List.mem_cons_of_mem _ ho)
      rw [List.map_cons, List.foldlM_cons, step]
      exact ih _ hr (fun other ho => own other (List.mem_cons_of_mem _ ho)) left
        (fun other ho => on other (List.mem_cons_of_mem _ ho))

/-! ## The changes in place together -/

/-- The table without its lost indexes and some of its columns. -/
def narrowed (before after : Table) (dropped : List String) : Table :=
  { before with
    columns := before.columns.filter fun c => decide (c.name ∉ dropped)
    indexes := before.indexes.filter fun name _ => decide (name ∉ lostIndexes before after) }

/-- The changes that take the lost indexes and some columns away. -/
def narrowing (before after : Table) (dropped : List String) : List SchemaChange :=
  (lostIndexes before after).map (SchemaChange.dropIndex after.name) ++
    dropped.map (SchemaChange.dropColumn after.name)

theorem mem_narrowing {before after : Table} {dropped : List String} {change : SchemaChange}
    (h : change ∈ narrowing before after dropped) :
    (∃ index, change = .dropIndex after.name index) ∨
      ∃ column, change = .dropColumn after.name column := by
  rcases List.mem_append.1 h with h | h
  · obtain ⟨index, -, rfl⟩ := List.mem_map.1 h
    exact .inl ⟨index, rfl⟩
  · obtain ⟨column, -, rfl⟩ := List.mem_map.1 h
    exact .inr ⟨column, rfl⟩

section

variable {before after : Table}

theorem lostColumns_nodup (after : Table) (hb : (before.columns.map Column.name).Nodup) :
    (lostColumns before after).Nodup :=
  hb.sublist (List.filter_sublist.map Column.name)

/-- The changes of the first two groups, one after the other. -/
theorem narrowing_changes {dropped left : List String}
    (hb : (before.columns.map Column.name).Nodup)
    (hlost : lostColumns before after = dropped ++ left) :
    (narrowing before after dropped).foldlM change? before =
      some (narrowed before after dropped) := by
  have hindexes := changes_dropIndex after.name (lostIndexes before after) before
    (before.indexes.keys_nodup.sublist (List.filter_sublist.map Prod.fst)) (by
      intro index hi
      obtain ⟨i, hf, -⟩ := mem_lostIndexes_iff.1 hi
      simp [NameMap.contains, hf])
  have hnodup := lostColumns_nodup after hb
  rw [hlost] at hnodup
  refine (foldlM_append_of_some hindexes).trans ?_
  refine changes_dropColumn after.name dropped _ (List.nodup_append.1 hnodup).1 fun name hname => ?_
  exact (mem_lostColumns_iff.1 (hlost ▸ List.mem_append_left _ hname)).1

/-- The columns that stay and those that come are the columns of the new shape. -/
theorem Changeable.columns_perm (h : Changeable before after)
    (hb : (before.columns.map Column.name).Nodup) (ha : after.WellFormed) :
    ((before.columns.filter fun c => decide (c.name ∉ lostColumns before after)) ++
      gainedColumns before after).Perm after.columns := by
  have disjoint : ∀ c ∈ before.columns.filter fun c => decide (c.name ∉ lostColumns before after),
      ∀ d ∈ gainedColumns before after, c ≠ d := by
    rintro c hc d hd rfl
    have old := (mem_gainedColumns_iff.1 hd).2
    rw [hasColumn_iff.2 ⟨c, List.mem_of_mem_filter hc, rfl⟩] at old
    cases old
  have nodup : ((before.columns.filter fun c => decide (c.name ∉ lostColumns before after)) ++
      gainedColumns before after).Nodup :=
    List.nodup_append.2 ⟨(hb.of_map _).filter _, (ha.distinct.of_map _).filter _, disjoint⟩
  rw [List.perm_ext_iff_of_nodup nodup (ha.distinct.of_map _)]
  intro c
  rw [List.mem_append, List.mem_filter, mem_gainedColumns_iff]
  constructor
  · rintro (⟨hc, stays⟩ | ⟨hc, -⟩)
    · have old : before.hasColumn c.name = true := hasColumn_iff.2 ⟨c, hc, rfl⟩
      have has : after.hasColumn c.name = true := by
        simpa [mem_lostColumns_iff, old] using stays
      obtain ⟨d, hd, name⟩ := hasColumn_iff.1 has
      have found : before.column? d.name = some c :=
        (column?_eq_some_iff hb).2 ⟨hc, name.symm⟩
      exact h.unchanged d hd c found ▸ hd
    · exact hc
  · intro hc
    cases old : before.hasColumn c.name with
    | false => exact .inr ⟨hc, rfl⟩
    | true =>
        obtain ⟨d, found⟩ := Option.isSome_iff_exists.1 old
        have same := h.unchanged c hc d found
        have has : after.hasColumn c.name = true := hasColumn_iff.2 ⟨c, hc, rfl⟩
        refine .inl ⟨same ▸ (mem_of_column? found).1, ?_⟩
        simp [mem_lostColumns_iff, has]

/-- A name of a gained index is free once the lost ones are dropped. -/
theorem get?_of_gainedIndexes {e : String × Index} (h : e ∈ gainedIndexes before after) :
    (before.indexes.filter fun name _ => decide (name ∉ lostIndexes before after)).get? e.1 =
      none := by
  obtain ⟨hn, ho⟩ := mem_gainedIndexes_iff.1 h
  rw [NameMap.get?_filter]
  cases hi : before.indexes.get? e.1 with
  | none => rfl
  | some i =>
      have differs : after.indexes.get? e.1 ≠ some i := by
        rw [hn]
        intro same
        exact ho (hi.trans same.symm)
      simpa using mem_lostIndexes_iff.2 ⟨i, hi, differs⟩

/-- The indexes that stay and those that come are the indexes of the new shape. -/
theorem gainedIndexes_onto :
    (gainedIndexes before after).foldl (fun m entry => m.insert entry.1 entry.2)
      (before.indexes.filter fun name _ => decide (name ∉ lostIndexes before after)) =
        after.indexes := by
  have names : ((gainedIndexes before after).map Prod.fst).Nodup :=
    after.indexes.keys_nodup.sublist (List.filter_sublist.map Prod.fst)
  apply NameMap.ext_get?
  intro name
  apply Option.ext
  intro i
  rw [NameMap.get?_foldl_insert, ← NameMap.get?_ofList]
  cases hg : (NameMap.ofList (gainedIndexes before after)).get? name with
  | some j =>
      have gained := (NameMap.get?_ofList_of_nodup names).1 hg
      rw [(mem_gainedIndexes_iff.1 gained).1]
      rfl
  | none =>
      have kept : ∀ j, after.indexes.get? name = some j → before.indexes.get? name = some j := by
        intro j hj
        refine Decidable.not_not.1 fun hn => ?_
        have gained : (name, j) ∈ gainedIndexes before after := mem_gainedIndexes_iff.2 ⟨hj, hn⟩
        rw [(NameMap.get?_ofList_of_nodup names).2 gained] at hg
        cases hg
      rw [Option.none_or, NameMap.get?_filter, Option.filter_eq_some_iff]
      simp only [decide_eq_true_eq, mem_lostIndexes_iff, not_exists, not_and, Decidable.not_not]
      constructor
      · rintro ⟨hi, stays⟩
        exact stays i hi
      · intro hi
        refine ⟨kept i hi, fun j hj => ?_⟩
        rw [kept i hi] at hj
        rw [← hj, hi]

/-- Changes in place, made one after the other, and with the new columns as `f` makes them. -/
theorem Changeable.changes_mapColumn (h : Changeable before after)
    (hb : (before.columns.map Column.name).Nodup) (ha : after.WellFormed) {f : Column → Column}
    (hf : ∀ c, (f c).name = c.name) :
    ((changesInPlace before after).map (SchemaChange.mapColumn f)).foldlM change? before =
      some { before with
        columns := (before.columns.filter fun c => decide (c.name ∉ lostColumns before after)) ++
          (gainedColumns before after).map f
        indexes := after.indexes } := by
  have columns := h.columns_perm hb ha
  have mapped : ((gainedColumns before after).map f).map Column.name =
      (gainedColumns before after).map Column.name := by
    rw [List.map_map]
    exact List.map_congr_left fun c _ => hf c
  have narrowed := narrowing_changes hb (List.append_nil (lostColumns before after)).symm
  rw [narrowing, Table.narrowed] at narrowed
  have widened := (foldlM_append_of_some narrowed).trans <|
    changes_addColumn after.name ((gainedColumns before after).map f) _
      (by
        rw [mapped]
        exact ha.distinct.sublist (List.filter_sublist.map Column.name)) (by
        intro c hc
        obtain ⟨new, gained, rfl⟩ := List.mem_map.1 hc
        have hn := (mem_gainedColumns_iff.1 gained).2
        rw [Bool.eq_false_iff, ne_eq, hasColumn_iff] at hn ⊢
        rintro ⟨d, hd, same⟩
        exact hn ⟨d, List.mem_of_mem_filter hd, same.trans (hf new)⟩)
  have indexed := (foldlM_append_of_some widened).trans <|
    changes_addIndex after.name (gainedIndexes before after) _
      (after.indexes.keys_nodup.sublist (List.filter_sublist.map Prod.fst))
      (fun e he => ha.ownName (mem_gainedIndexes_iff.1 he).1)
      (fun e he => by simp only [NameMap.contains, get?_of_gainedIndexes he]; rfl) (by
        intro e he column hc
        have has := ha.indexed (mem_gainedIndexes_iff.1 he).1 column hc
        obtain ⟨d, hd, rfl⟩ := hasColumn_iff.1 has
        rw [hasColumn_iff]
        rcases List.mem_append.1 (columns.mem_iff.2 hd) with hd | hd
        · exact ⟨d, List.mem_append_left _ hd, rfl⟩
        · exact ⟨f d, List.mem_append_right _ (List.mem_map_of_mem hd), hf d⟩)
  have groups : (changesInPlace before after).map (SchemaChange.mapColumn f) =
      (lostIndexes before after).map (SchemaChange.dropIndex after.name) ++
        (lostColumns before after).map (SchemaChange.dropColumn after.name) ++
        ((gainedColumns before after).map f).map (SchemaChange.addColumn after.name) ++
        (gainedIndexes before after).map fun e => SchemaChange.addIndex after.name e.2 := by
    rw [changesInPlace_eq]
    simp only [List.map_append, List.map_map]
    rfl
  rw [groups, indexed, gainedIndexes_onto]

/-- Changes in place, made one after the other, lead from one shape to the other. -/
theorem Changeable.changes (h : Changeable before after)
    (hb : (before.columns.map Column.name).Nodup) (ha : after.WellFormed)
    (name : before.name = after.name) :
    ∃ result, (changesInPlace before after).foldlM change? before = some result ∧
      result.Agrees after := by
  have made := h.changes_mapColumn hb ha (f := id) fun _ => rfl
  rw [SchemaChange.mapColumn_id, List.map_id, List.map_id] at made
  exact ⟨_, made, name, h.primaryKey, rfl, h.columns_perm hb ha⟩

end

end Table

namespace Realm

/-! ## The changes of one table in a realm -/

theorem carryOut?_of_change? {r : Realm} {t next : Table} {change : SchemaChange}
    (found : r.tables.get? change.table = some t) (h : t.change? change = some next) :
    r.carryOut? change = some ⟨r.tables.insert change.table next⟩ := by
  cases change with
  | addTable _ => cases h
  | dropTable _ => cases h
  | rebuildTable _ _ _ => cases h
  | addColumn _ _ => simp [carryOut?, replace?, found, h]
  | dropColumn _ _ => simp [carryOut?, replace?, found, h]
  | addIndex _ _ => simp [carryOut?, replace?, found, h]
  | dropIndex _ _ => simp [carryOut?, replace?, found, h]

/-- Changes of one table can be carried out in the realm as they can in the table. -/
theorem carryOutAll?_of_changes {name : String} (changes : List SchemaChange) {r : Realm}
    {t next : Table} (own : ∀ change ∈ changes, change.table = name)
    (found : r.tables.get? name = some t) (h : changes.foldlM Table.change? t = some next) :
    r.carryOutAll? changes = some ⟨r.tables.insert name next⟩ := by
  induction changes generalizing r t with
  | nil =>
      cases h
      rw [NameMap.insert_of_get? found]
      rfl
  | cons change rest ih =>
      rw [List.foldlM_cons] at h
      obtain ⟨middle, first, others⟩ := Option.bind_eq_some_iff.1 h
      have table := own change List.mem_cons_self
      have step := carryOut?_of_change? (table.symm ▸ found) first
      rw [table] at step
      have done : carryOutAll? ⟨r.tables.insert name middle⟩ rest = _ :=
        ih (fun c hc => own c (List.mem_cons_of_mem _ hc))
          (NameMap.get?_insert_self r.tables name middle) others
      rw [carryOutAll?, List.foldlM_cons, step]
      rw [NameMap.insert_insert] at done
      exact done

theorem table_of_mem_changesInPlace {before after : Table} {change : SchemaChange}
    (h : change ∈ Table.changesInPlace before after) : change.table = after.name := by
  rw [Table.changesInPlace_eq] at h
  simp only [List.mem_append, List.mem_map] at h
  rcases h with ((⟨_, -, rfl⟩ | ⟨_, -, rfl⟩) | ⟨_, -, rfl⟩) | ⟨_, -, rfl⟩ <;> rfl

/-- Two realms that have the same table under every name but one. -/
def SameBut (name : String) (a b : Realm) : Prop :=
  ∀ other, other ≠ name → a.tables.get? other = b.tables.get? other

theorem sameBut_insert (r : Realm) (name : String) (t : Table) :
    SameBut name ⟨r.tables.insert name t⟩ r :=
  fun _ hn => NameMap.get?_insert_of_ne _ _ hn.symm

section

variable {current desired : Realm}

/-- Carrying out the changes for one name gives the table that was wanted under that name, and
leaves all others alone. -/
theorem carryOutAll?_diffAt (hc : current.WellFormed) (hd : desired.WellFormed) {r : Realm}
    {name : String} (start : r.tables.get? name = current.tables.get? name) :
    ∃ result, r.carryOutAll? (current.diffAt desired name) = some result ∧
      Option.Rel Table.Agrees (result.tables.get? name) (desired.tables.get? name) ∧
      SameBut name result r := by
  rcases diffAt_cases current desired name with ⟨same, none⟩ | ⟨after, hb, ha, added⟩ |
    ⟨before, hb, ha, dropped⟩ | ⟨before, after, hb, ha, rebuilt⟩ |
    ⟨before, after, hb, ha, changeable, changed⟩
  · refine ⟨r, by rw [none]; rfl, ?_, fun _ _ => rfl⟩
    rw [start, same]
    cases desired.tables.get? name with
    | none => exact .none
    | some after => exact .some (.refl after)
  · have own := hd.ownName ha
    rw [hb] at start
    refine ⟨⟨r.tables.insert name after⟩, ?_, ?_, sameBut_insert r name after⟩
    · simp [added, carryOutAll?, carryOut?, own, NameMap.contains, start]
    · rw [NameMap.get?_insert_self, ha]
      exact .some (.refl after)
  · rw [hb] at start
    refine ⟨⟨r.tables.erase name⟩, ?_, ?_, ?_⟩
    · simp [dropped, carryOutAll?, carryOut?, NameMap.contains, start]
    · rw [NameMap.get?_erase_self, ha]
      exact .none
    · intro other hn
      simp [NameMap.get?_erase, hn.symm]
  · rw [hb] at start
    refine ⟨⟨r.tables.insert name after⟩, ?_, ?_, sameBut_insert r name after⟩
    · simp [rebuilt, carryOutAll?, carryOut?, replace?, hd.ownName ha, start]
    · rw [NameMap.get?_insert_self, ha]
      exact .some (.refl after)
  · rw [hb] at start
    have own : before.name = after.name := (hc.ownName hb).trans (hd.ownName ha).symm
    obtain ⟨next, changes, agrees⟩ :=
      changeable.changes (hc.tables hb).distinct (hd.tables ha) own
    refine ⟨⟨r.tables.insert name next⟩, ?_, ?_, sameBut_insert r name next⟩
    · rw [changed]
      exact carryOutAll?_of_changes _
        (fun c hm => (table_of_mem_changesInPlace hm).trans (hd.ownName ha)) start changes
    · rw [NameMap.get?_insert_self, ha]
      exact .some agrees

/-- Carrying out the changes for some names, each once. -/
theorem carryOutAll?_flatMap (hc : current.WellFormed) (hd : desired.WellFormed)
    (names : List String) (distinct : names.Nodup) {r : Realm}
    (start : ∀ name ∈ names, r.tables.get? name = current.tables.get? name) :
    ∃ result, r.carryOutAll? (names.flatMap (current.diffAt desired)) = some result ∧
      (∀ name ∈ names,
        Option.Rel Table.Agrees (result.tables.get? name) (desired.tables.get? name)) ∧
      ∀ name, name ∉ names → result.tables.get? name = r.tables.get? name := by
  induction names generalizing r with
  | nil => exact ⟨r, rfl, by simp, fun _ _ => rfl⟩
  | cons name rest ih =>
      obtain ⟨hn, hr⟩ := List.nodup_cons.1 distinct
      obtain ⟨middle, first, agrees, same⟩ :=
        carryOutAll?_diffAt hc hd (start name List.mem_cons_self)
      have later : ∀ other ∈ rest, middle.tables.get? other = current.tables.get? other := by
        intro other ho
        rw [same other fun equal => hn (equal ▸ ho)]
        exact start other (List.mem_cons_of_mem _ ho)
      obtain ⟨result, others, agree, kept⟩ := ih hr later
      refine ⟨result, ?_, ?_, ?_⟩
      · rw [List.flatMap_cons, carryOutAll?, List.foldlM_append]
        exact Option.bind_eq_some_iff.2 ⟨middle, first, others⟩
      · intro other ho
        rcases List.mem_cons.1 ho with rfl | ho
        · rw [kept other hn]
          exact agrees
        · exact agree other ho
      · intro other ho
        obtain ⟨hne, hno⟩ := not_or.1 fun h => ho (List.mem_cons.2 h)
        rw [kept other hno, same other hne]

/-- There is nothing to change exactly where the realms agree. -/
theorem diff_eq_nil_iff (hc : current.Named) (hd : desired.WellFormed) :
    current.diff desired = [] ↔ current.Agrees desired := by
  unfold diff
  rw [List.flatMap_eq_nil_iff]
  constructor
  · intro h name
    by_cases hm : name ∈ current.tables.allKeys desired.tables
    · have nothing := h name hm
      unfold diffAt at nothing
      cases hb : current.tables.get? name with
      | none =>
          cases ha : desired.tables.get? name with
          | none => exact .none
          | some after => simp [hb, ha] at nothing
      | some before =>
          cases ha : desired.tables.get? name with
          | none => simp [hb, ha] at nothing
          | some after =>
              rw [hb, ha] at nothing
              have own := (hc.ownName hb).trans (hd.ownName ha).symm
              exact .some ((Table.diff_eq_nil_iff (hc.distinct hb) (hd.tables ha) own).1 nothing)
    · rw [NameMap.mem_allKeys_iff, not_or] at hm
      rw [Option.not_isSome_iff_eq_none.1 hm.1, Option.not_isSome_iff_eq_none.1 hm.2]
      exact .none
  · intro agrees name _
    have hn := agrees name
    unfold diffAt
    cases hb : current.tables.get? name with
    | none =>
        cases ha : desired.tables.get? name with
        | none => rfl
        | some after => simp [hb, ha] at hn
    | some before =>
        cases ha : desired.tables.get? name with
        | none => simp [hb, ha] at hn
        | some after =>
            rw [hb, ha] at hn
            cases hn with
            | some agree =>
                exact (Table.diff_eq_nil_iff (hc.distinct hb) (hd.tables ha) agree.name).2 agree

/-- The difference of two realms can be carried out, what it gives agrees with the realm that was
wanted, and it is empty exactly where the two agree already; so after it nothing is left to
change. -/
theorem carryOutAll?_diff (hc : current.WellFormed) (hd : desired.WellFormed) :
    (∃ result, current.carryOutAll? (current.diff desired) = some result ∧
      result.Agrees desired ∧ result.diff desired = []) ∧
    (current.diff desired = [] ↔ current.Agrees desired) := by
  refine ⟨?_, diff_eq_nil_iff hc.named hd⟩
  obtain ⟨result, done, agree, kept⟩ := carryOutAll?_flatMap hc hd
    (current.tables.allKeys desired.tables) (NameMap.allKeys_nodup _ _) (fun _ _ => rfl)
  have agrees : result.Agrees desired := by
    intro name
    by_cases hm : name ∈ current.tables.allKeys desired.tables
    · exact agree name hm
    · rw [kept name hm]
      rw [NameMap.mem_allKeys_iff, not_or] at hm
      rw [Option.not_isSome_iff_eq_none.1 hm.1, Option.not_isSome_iff_eq_none.1 hm.2]
      exact .none
  exact ⟨result, done, agrees, (diff_eq_nil_iff (agrees.wellFormed hd).named hd).2 agrees⟩

end

/-- Notes with an index over their text, tags by a number, and an archive. -/
def plainNotes : Realm where
  tables := .ofList [
    ("archive", ⟨"archive", [⟨"id", "INTEGER", false, none⟩], [], .empty⟩),
    ("notes", ⟨"notes", [⟨"id", "INTEGER", false, none⟩, ⟨"body", "TEXT", true, none⟩], ["id"],
      .ofList [("by_text", ⟨"by_text", ["body"], false⟩)]⟩),
    ("tags", ⟨"tags", [⟨"tag", "INTEGER", false, none⟩], ["tag"], .empty⟩)]

/-- Notes with a title in place of their text, tags by name, and authors. -/
def titledNotes : Realm where
  tables := .ofList [
    ("authors", ⟨"authors", [⟨"name", "TEXT", false, none⟩], ["name"],
      .ofList [("by_name", ⟨"by_name", ["name"], true⟩)]⟩),
    ("notes", ⟨"notes", [⟨"title", "TEXT", false, some "''"⟩, ⟨"id", "INTEGER", false, none⟩],
      ["id"], .ofList [("by_text", ⟨"by_text", ["title"], false⟩)]⟩),
    ("tags", ⟨"tags", [⟨"tag", "TEXT", false, none⟩], ["tag"], .empty⟩)]

theorem carryOutAll?_diff_notes :
    plainNotes.WellFormed ∧ titledNotes.WellFormed ∧
      ((∃ result, plainNotes.carryOutAll? (plainNotes.diff titledNotes) = some result ∧
        result.Agrees titledNotes ∧ result.diff titledNotes = []) ∧
      (plainNotes.diff titledNotes = [] ↔ plainNotes.Agrees titledNotes)) :=
  ⟨by decide, by decide, carryOutAll?_diff (by decide) (by decide)⟩

/-- A table dropped, one added, one changed in place and one rebuilt. -/
example : plainNotes.diff titledNotes = [
    .dropTable "archive",
    .addTable ⟨"authors", [⟨"name", "TEXT", false, none⟩], ["name"],
      .ofList [("by_name", ⟨"by_name", ["name"], true⟩)]⟩,
    .dropIndex "notes" "by_text",
    .dropColumn "notes" "body",
    .addColumn "notes" ⟨"title", "TEXT", false, some "''"⟩,
    .addIndex "notes" ⟨"by_text", ["title"], false⟩,
    .rebuildTable ⟨"tags", [⟨"tag", "INTEGER", false, none⟩], ["tag"], .empty⟩
      ⟨"tags", [⟨"tag", "TEXT", false, none⟩], ["tag"], .empty⟩ ["tag"]] := by
  decide

end Realm

end ProjectHub
